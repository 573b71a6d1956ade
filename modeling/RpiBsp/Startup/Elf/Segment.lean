import RpiBsp.Startup.Elf.Copy

/-!
# Startup — ELF — a segment

What a segment is to become (`Placed`): every address of it leads to a byte, that of the file or 0,
in a page that is not the code's own any more.

* `loadInPlace_spec` — the pages that are full are mapped where they are, the others are copied;
* `loadCopied_spec` — all pages are copied.
-/

namespace Startup.Elf

open Support

namespace Elf64_Phdr

variable (ph : Elf64_Phdr)

/-- Where a byte of the file is. -/
def fileAddr (addr k : ℕ) : ℕ :=
  if ph.p_paddr ≠ 0 then ph.p_paddr + k else addW 64 (addW 64 addr ph.p_offset) k

/-- The size from the start of the first page. -/
def size : ℕ := ph.p_memsz + ph.p_vaddr % 2 ^ 12

/-- The addresses of its pages. -/
def span : Set ℕ := Set.Ico ph.vaddr (ph.vaddr + pages ph.size)

/-- The segment is in the address space, has no more bytes in the file than in memory, and if it has
a physical address, that is one at the same place in a page, and the bytes of the file fit behind
it. -/
structure Wf : Prop where
  vaddr : ph.p_vaddr < 2 ^ 64
  top : ph.p_vaddr + ph.p_memsz ≤ 2 ^ 64
  filesz : ph.p_filesz ≤ ph.p_memsz
  paddr : ph.p_paddr ≠ 0 → ph.p_paddr % 2 ^ 12 = ph.p_vaddr % 2 ^ 12 ∧
    ph.p_paddr + ph.p_filesz ≤ 2 ^ 48

/-- The size does not wrap when it is rounded to pages. -/
def Fits : Prop := ph.size + (2 ^ 12 - 1) < 2 ^ 64

instance : Decidable ph.Fits := inferInstanceAs (Decidable (_ < _))

variable {ph}

theorem and_pagebits (x : ℕ) : x &&& PAGEBITS = x % 2 ^ 12 := and_page x

theorem vaddr_eq (h : ph.p_vaddr < 2 ^ 64) : ph.vaddr = ph.p_vaddr - ph.p_vaddr % 2 ^ 12 :=
  and_not_page h

theorem paddr_eq (h : ph.p_paddr < 2 ^ 64) : ph.paddr = ph.p_paddr - ph.p_paddr % 2 ^ 12 :=
  and_not_page h

theorem memsz₀_eq (h : ph.Fits) : ph.memsz₀ = ph.size := by
  rw [Fits] at h
  rw [memsz₀, and_pagebits,
    addW_of_lt (show ph.p_memsz + ph.p_vaddr % 2 ^ 12 < 2 ^ 64 by rw [size] at h; omega), size]

theorem filesz₀_eq (hw : ph.Wf) (h : ph.Fits) : ph.filesz₀ = ph.p_filesz + ph.p_vaddr % 2 ^ 12 := by
  have hle := hw.filesz
  rw [Fits, size] at h
  rw [filesz₀, and_pagebits, addW_of_lt (by omega)]

/-- A segment that can be mapped as whole pages has all its bytes in the file. -/
theorem Whole.eq (hw : ph.Wf) (h : ph.Fits) (hwhole : ph.Whole) : ph.p_memsz = ph.p_filesz := by
  have heq := hwhole.2
  rw [memsz₀_eq h, filesz₀_eq hw h, size] at heq
  omega

end Elf64_Phdr

theorem addW_subW {a o k : ℕ} (ho : o < 2 ^ 64) : addW 64 (subW 64 a o) (o + k) = addW 64 a k := by
  rw [addW, subW, Nat.mod_add_mod, show a + (2 ^ 64 - o) + (o + k) = a + k + 2 ^ 64 by omega,
    Nat.add_mod_right]
  rfl

theorem pages_pages (x : ℕ) : pages (pages x) = pages x := by
  simp only [pages]
  omega

theorem pages_fit {x : ℕ} (h : x + (2 ^ 12 - 1) < 2 ^ 64) : pages x + (2 ^ 12 - 1) < 2 ^ 64 := by
  simp only [pages]
  omega

/-- Every address of the segment leads to its byte. -/
def Placed (C : MmuConsts) (addr : ℕ) (file : ℕ → UInt8) (ph : Elf64_Phdr) (m : Mmu) : Prop :=
  ∀ k < ph.p_memsz, ∃ x < 2 ^ 48, elf_vaddr_to_paddr C (ph.p_vaddr + k) m = .ok x ∧
    ¬ m.Own C (page x) ∧
    byte m x = if k < ph.p_filesz then file (ph.fileAddr addr k) else 0

/-- What loading a segment does: to the tables, to memory, and to addresses. -/
structure Step (C : MmuConsts) (env : MmuEnv) (addr : ℕ) (ph : Elf64_Phdr) (m m' : Mmu) : Prop where
  tables : Tables C env m'
  keeps : Keeps C m m'
  top : ph.vaddr + pages ph.size < 2 ^ 64
  frame : ∀ u < 2 ^ 64, u ∉ ph.span → elf_vaddr_to_paddr C u m' = elf_vaddr_to_paddr C u m
  placed : Placed C addr (byte m) ph m'

section Segments

variable {C : MmuConsts} {env : MmuEnv} {m m' : Mmu} {addr : ℕ} {ph : Elf64_Phdr}

/-- A segment without a physical address. -/
theorem loadCopied_spec (hC : C.Standard) (hvirt : env.is_virtual = true) (ht : Tables C env m)
    (hw : ph.Wf)
    (hfits : ph.Fits) (hp : ph.p_paddr = 0)
    (hfile : ∀ k < ph.p_filesz, ¬ m.Own C (page (ph.fileAddr addr k)))
    (h : loadCopied C env addr ph m = .ok m') : Step C env addr ph m m' := by
  have hvaddr := ph.vaddr_eq hw.vaddr
  have hv := hw.vaddr
  have hle := hw.filesz
  have hsize : ph.size = ph.p_memsz + ph.p_vaddr % 2 ^ 12 := rfl
  have hround : ph.size ≤ pages ph.size := le_pages _
  have hfit := hfits
  rw [Elf64_Phdr.Fits] at hfit
  -- The two sizes are rounded, or not.
  have hsizes : pages ph.memsz = pages ph.size ∧ ph.memsz + (2 ^ 12 - 1) < 2 ^ 64 ∧
      ph.size ≤ ph.memsz ∧
      ph.filesz ≤ pages ph.size ∧ ph.p_filesz + ph.p_vaddr % 2 ^ 12 ≤ ph.filesz ∧
      (ph.p_filesz < ph.p_memsz → ph.filesz = ph.p_filesz + ph.p_vaddr % 2 ^ 12) := by
    by_cases hwhole : ph.Whole
    · have heq := Elf64_Phdr.Whole.eq hw hfits hwhole
      have hF : ph.filesz₀ = ph.size := by rw [ph.filesz₀_eq hw hfits, hsize, heq]
      rw [Elf64_Phdr.memsz, Elf64_Phdr.filesz, if_pos hwhole, if_pos hwhole, hF, ROUNDPG_pages hfit]
      exact ⟨pages_pages _, pages_fit hfit, hround, le_rfl, by omega, fun hlt => by omega⟩
    · rw [Elf64_Phdr.memsz, Elf64_Phdr.filesz, if_neg hwhole, if_neg hwhole, ph.memsz₀_eq hfits,
        ph.filesz₀_eq hw hfits]
      exact ⟨rfl, hfit, le_rfl, by omega, le_rfl, fun _ => rfl⟩
  obtain ⟨hpages, hmfit, hmle, hfpages, hfle, hfeq⟩ := hsizes
  rw [loadCopied, ROUNDPG_pages hmfit] at h
  rw [← hpages] at hfpages
  obtain ⟨ht', hkeeps, htop, hframe, hplaced⟩ :=
    mapCopied_spec hC hvirt ht (by omega) (by omega) hfpages h
  rw [hpages] at htop hframe
  refine ⟨ht', hkeeps, htop, hframe, fun k hk => ?_⟩
  obtain ⟨x, hx, htrans, hfree, hcopied, hzero⟩ := hplaced (ph.p_vaddr % 2 ^ 12 + k) (by omega)
  rw [show ph.vaddr + (ph.p_vaddr % 2 ^ 12 + k) = ph.p_vaddr + k by omega] at htrans
  refine ⟨x, hx, htrans, hfree, ?_⟩
  by_cases hkf : k < ph.p_filesz
  · have hsrc : addW 64 (subW 64 (addW 64 addr ph.p_offset) (ph.p_vaddr &&& PAGEBITS))
        (ph.p_vaddr % 2 ^ 12 + k) = ph.fileAddr addr k := by
      rw [Elf64_Phdr.fileAddr, if_neg (not_not.mpr hp), Elf64_Phdr.and_pagebits]
      exact addW_subW (by omega)
    rw [hsrc] at hcopied
    rw [if_pos hkf]
    exact hcopied (by omega) (hfile k hkf)
  · rw [if_neg hkf]
    exact hzero (by rw [hfeq (by omega)]; omega)

/-- A segment that is in RAM as a whole. -/
theorem loadInPlace_whole (hC : C.Standard) (hvirt : env.is_virtual = true) (ht : Tables C env m)
    (hw : ph.Wf) (hfits : ph.Fits) (hp : ph.p_paddr ≠ 0) (heq : ph.p_memsz = ph.p_filesz)
    (hfile : ∀ k < ph.p_filesz, ¬ m.Own C (page (ph.fileAddr addr k)))
    (h : loadInPlace C env ph m = .ok m') : Step C env addr ph m m' := by
  obtain ⟨hmod, hfit⟩ := hw.paddr hp
  have hvaddr := ph.vaddr_eq hw.vaddr
  have hpaddr := ph.paddr_eq (by omega)
  have hv := hw.vaddr
  have hsize : ph.size = ph.p_memsz + ph.p_vaddr % 2 ^ 12 := rfl
  have hround : ph.size ≤ pages ph.size := le_pages _
  have hal := pages_aligned ph.size
  have hpages : ph.size + (2 ^ 12 - 1) < 2 ^ 64 := hfits
  have hpfit : pages ph.size + (2 ^ 12 - 1) < 2 ^ 64 := pages_fit hpages
  have hF : ROUNDPG ph.filesz = pages ph.size := by
    have hF₀ : ph.filesz₀ = ph.size := by rw [ph.filesz₀_eq hw hfits, hsize, heq]
    rw [Elf64_Phdr.filesz, hF₀]
    split_ifs
    · rw [ROUNDPG_pages hpages, ROUNDPG_pages hpfit, pages_pages]
    · exact ROUNDPG_pages hpages
  have hfull : pages ph.size &&& notW 64 PAGEBITS = pages ph.size := by
    rw [PAGEBITS, and_not_page (by omega), hal, Nat.sub_zero]
  have hrest : ROUNDPG (subW 64 (pages ph.size) (pages ph.size)) = 0 := by
    rw [subW_of_le le_rfl (by omega), Nat.sub_self]
    decide
  simp only [loadInPlace, if_pos heq, hF, hfull, hrest, ne_eq, not_true_eq_false, if_false] at h
  obtain ⟨m₁, hmap, h⟩ := bind_eq_ok.mp h
  cases h
  obtain ⟨ht', hkeeps, htop, hval, hframe⟩ :=
    elf_map_spec hC hvirt ht (by omega) (by omega) (by omega)
    (show ph.paddr + pages ph.size ≤ 2 ^ 48 by rw [pages]; omega) hmap
  rw [pages_pages] at htop hframe
  refine ⟨ht', hkeeps, htop, hframe, fun k hk => ?_⟩
  have hkf : k < ph.p_filesz := by omega
  have haddr : ph.fileAddr addr k = ph.p_paddr + k := if_pos hp
  have htrans := hval (ph.p_vaddr % 2 ^ 12 + k) (by omega)
  have hfree := hfile k hkf
  rw [show ph.vaddr + (ph.p_vaddr % 2 ^ 12 + k) = ph.p_vaddr + k by omega,
    show ph.paddr + (ph.p_vaddr % 2 ^ 12 + k) = ph.fileAddr addr k by omega] at htrans
  refine ⟨ph.fileAddr addr k, by omega, htrans, fun hown => hfree (hkeeps.own _ hown), ?_⟩
  rw [if_pos hkf]
  exact byte_keeps hkeeps hfree

/-- How a segment is divided whose last pages are not in the file as they are: into `full` pages of
the file, a `part` of a page that the file has, and the pages for this part and all the rest. -/
structure Parts (ph : Elf64_Phdr) (full part rest : ℕ) : Prop where
  memsz : ph.memsz = ph.size
  filesz : ph.filesz = ph.p_filesz + ph.p_vaddr % 2 ^ 12
  sum : full + part = ph.p_filesz + ph.p_vaddr % 2 ^ 12
  masked : ph.p_filesz + ph.p_vaddr % 2 ^ 12 &&& notW 64 PAGEBITS = full
  remainder : (ph.p_filesz + ph.p_vaddr % 2 ^ 12) % 2 ^ 12 = part
  rounded : ROUNDPG (subW 64 ph.size full) = rest
  pages_size : pages ph.size = full + rest
  pages_full : pages full = full
  pages_rest : pages rest = rest
  size_le : ph.size - full ≤ rest
  part_le : part ≤ rest
  ne_zero : rest ≠ 0

theorem exists_parts (hw : ph.Wf) (hfits : ph.Fits) (hlt : ph.p_filesz < ph.p_memsz) :
    ∃ full part rest, Parts ph full part rest := by
  have hsize : ph.size = ph.p_memsz + ph.p_vaddr % 2 ^ 12 := rfl
  have hpages : ph.size + (2 ^ 12 - 1) < 2 ^ 64 := hfits
  have hwhole : ¬ ph.Whole := fun hwhole => hlt.ne' (Elf64_Phdr.Whole.eq hw hfits hwhole)
  have hfilesz : ph.filesz = ph.p_filesz + ph.p_vaddr % 2 ^ 12 := by
    rw [Elf64_Phdr.filesz, if_neg hwhole, ph.filesz₀_eq hw hfits]
  obtain ⟨n, hn⟩ : ∃ n, n = ph.p_filesz + ph.p_vaddr % 2 ^ 12 := ⟨_, rfl⟩
  rw [← hn] at hfilesz
  have hround : ROUNDPG (subW 64 ph.size (n - n % 2 ^ 12)) =
      pages (ph.size - (n - n % 2 ^ 12)) := by
    rw [subW_of_le (by omega) (by omega)]
    exact ROUNDPG_pages (by omega)
  have hle := le_pages (ph.size - (n - n % 2 ^ 12))
  refine ⟨n - n % 2 ^ 12, n % 2 ^ 12, pages (ph.size - (n - n % 2 ^ 12)), ?_⟩
  constructor
  case memsz => rw [Elf64_Phdr.memsz, if_neg hwhole, ph.memsz₀_eq hfits]
  case filesz => rw [hfilesz, hn]
  case sum => omega
  case masked => rw [PAGEBITS, and_not_page (by omega), hn]
  case remainder => rw [hn]
  case rounded => exact hround
  case pages_size =>
      simp only [pages]
      omega
  case pages_full =>
      rw [pages]
      omega
  case pages_rest => exact pages_pages _
  case size_le => exact hle
  case part_le => omega
  case ne_zero => omega

/-- A segment whose last pages are not, or not as a whole. -/
theorem loadInPlace_tail (hC : C.Standard) (hvirt : env.is_virtual = true) (ht : Tables C env m)
    (hw : ph.Wf) (hfits : ph.Fits) (hp : ph.p_paddr ≠ 0) (hlt : ph.p_filesz < ph.p_memsz)
    (hfile : ∀ k < ph.p_filesz, ¬ m.Own C (page (ph.fileAddr addr k)))
    (h : loadInPlace C env ph m = .ok m') : Step C env addr ph m m' := by
  obtain ⟨hmod, hfit⟩ := hw.paddr hp
  have hvaddr := ph.vaddr_eq hw.vaddr
  have hpaddr := ph.paddr_eq (by omega)
  have hv := hw.vaddr
  have hsize : ph.size = ph.p_memsz + ph.p_vaddr % 2 ^ 12 := rfl
  have hpages : ph.size + (2 ^ 12 - 1) < 2 ^ 64 := hfits
  obtain ⟨full, part, rest, hparts⟩ := exists_parts hw hfits hlt
  simp only [loadInPlace, if_neg hlt.ne', hparts.memsz, hparts.filesz, hparts.masked,
    hparts.rounded,
    Elf64_Phdr.and_pagebits, hparts.remainder, ne_eq, hparts.ne_zero, not_false_eq_true,
    if_true] at h
  have hsum := hparts.sum
  have hspan := hparts.pages_size
  have hfal : full % 2 ^ 12 = 0 := by
    rw [← hparts.pages_full]
    exact pages_aligned full
  obtain ⟨o, ho⟩ : ∃ o, o = ph.p_vaddr % 2 ^ 12 := ⟨_, rfl⟩
  rw [← ho] at hsum hsize
  have hva : ph.vaddr + o = ph.p_vaddr := by omega
  have hpa : ph.paddr + o = ph.p_paddr := by omega
  have hval : ph.vaddr % 2 ^ 12 = 0 := by omega
  have hpal : ph.paddr % 2 ^ 12 = 0 := by omega
  have hle := hparts.size_le
  clear hvaddr hpaddr hmod ho
  obtain ⟨m₁, hmap, h⟩ := bind_eq_ok.mp h
  obtain ⟨ht₁, hkeeps₁, htop₁, hval₁, hframe₁⟩ :=
    elf_map_spec hC hvirt ht hval (by omega) hpal (by omega) hmap
  rw [hparts.pages_full] at htop₁ hframe₁
  rw [addW_of_lt htop₁, addW_of_lt (show ph.paddr + full < 2 ^ 64 by omega)] at h
  have hcopy : mapCopied C env (ph.vaddr + full) (pages rest) rest (ph.paddr + full) part ph.p_flags
      m₁ = .ok m' := by
    rwa [hparts.pages_rest]
  obtain ⟨ht', hkeeps₂, htop, hframe₂, hplaced⟩ := mapCopied_spec hC hvirt ht₁ (by omega) htop₁
    (show part ≤ pages rest from hparts.pages_rest.symm ▸ hparts.part_le) hcopy
  rw [hparts.pages_rest, Nat.add_assoc, ← hspan] at htop
  rw [hparts.pages_rest, Nat.add_assoc, ← hspan] at hframe₂
  have haddr : ∀ k, ph.fileAddr addr k = ph.paddr + (o + k) := by
    intro k
    rw [Elf64_Phdr.fileAddr, if_pos hp]
    omega
  refine ⟨ht', hkeeps₁.trans hkeeps₂, htop, fun u hu hout => ?_, fun k hk => ?_⟩
  · have hout' : ¬ (ph.vaddr ≤ u ∧ u < ph.vaddr + pages ph.size) := hout
    rw [hframe₂ u hu (by omega), hframe₁ u hu (by omega)]
  by_cases hin : o + k < full
  · -- In a full page, and mapped first.
    have hkf : k < ph.p_filesz := by omega
    have hfree : ¬ m₁.Own C (page (ph.fileAddr addr k)) :=
      fun hown => hfile k hkf (hkeeps₁.own _ hown)
    have htrans := hval₁ _ hin
    rw [show ph.vaddr + (o + k) = ph.p_vaddr + k by omega, ← haddr] at htrans
    have hx := haddr k
    refine ⟨ph.fileAddr addr k, by omega, ?_, fun hown => hfree (hkeeps₂.own _ hown), ?_⟩
    · rw [hframe₂ _ (by omega) (by omega), htrans]
    · rw [if_pos hkf, byte_keeps hkeeps₂ hfree]
      exact byte_keeps hkeeps₁ (hfile k hkf)
  · -- In the pages that are copied.
    obtain ⟨x, hx, htrans, hfree, hcopied, hzero⟩ := hplaced (o + k - full) (by omega)
    rw [show ph.vaddr + full + (o + k - full) = ph.p_vaddr + k by omega] at htrans
    refine ⟨x, hx, htrans, hfree, ?_⟩
    by_cases hkf : k < ph.p_filesz
    · have hsrc : addW 64 (ph.paddr + full) (o + k - full) = ph.fileAddr addr k := by
        rw [haddr, addW_of_lt (by omega)]
        omega
      rw [hsrc] at hcopied
      rw [if_pos hkf, hcopied (by omega) fun hown => hfile k hkf (hkeeps₁.own _ hown)]
      exact byte_keeps hkeeps₁ (hfile k hkf)
    · rw [if_neg hkf]
      exact hzero (by omega)

/-- A segment with a physical address. -/
theorem loadInPlace_spec (hC : C.Standard) (hvirt : env.is_virtual = true) (ht : Tables C env m)
    (hw : ph.Wf)
    (hfits : ph.Fits) (hp : ph.p_paddr ≠ 0)
    (hfile : ∀ k < ph.p_filesz, ¬ m.Own C (page (ph.fileAddr addr k)))
    (h : loadInPlace C env ph m = .ok m') : Step C env addr ph m m' := by
  rcases hw.filesz.eq_or_lt with heq | hlt
  · exact loadInPlace_whole hC hvirt ht hw hfits hp heq.symm hfile h
  · exact loadInPlace_tail hC hvirt ht hw hfits hp hlt hfile h

end Segments

end Startup.Elf
