import RpiBsp.Startup.Uefi.Map
import RpiBsp.Support.HeapSort

/-!
# Startup — UEFI — the map of the EFI entry point

`efi_entry_point.c`: a startup program that the firmware enters as an EFI application keeps the
memory map that it was given, and hands out its descriptors by rising addresses.  It sorts them
where they are, in the buffer.

* `exchange_spec` — two descriptors are exchanged, byte by byte;
* `efi_sort_map_spec` — the buffer holds the descriptors that it held, in order;
* `efi_walk_map_sorted` — **main**: a walk over the map meets each descriptor once, by rising
addresses, every time.
-/

namespace Startup.Uefi

open Support

/-! ### The program -/

/-- The static data of `efi_entry_point.c`. -/
structure EfiMap where
  efi_map : ℕ
  efi_map_size : ℕ
  efi_map_desc_size : ℕ

def efi_map_entry (e : EfiMap) (idx : ℕ) : ℕ := e.efi_map + idx * e.efi_map_desc_size

/-- `desc = *p; *p = *c; *c = desc;` -/
def exchange (p c : ℕ) (mem : ℕ → UInt8) : ℕ → UInt8 :=
  write c (bytes mem p DESCRIPTOR_SIZE) (memmove p c DESCRIPTOR_SIZE mem)

/-- The descriptors, as what is sorted. -/
def cells (e : EfiMap) : HeapSort.Cells (ℕ → UInt8) EFI_MEMORY_DESCRIPTOR where
  get mem idx := descriptor (efi_map_entry e idx) mem
  swap i j := exchange (efi_map_entry e i) (efi_map_entry e j)

def heapify (e : EfiMap) : ℕ → (ℕ → UInt8) → ℕ → UInt8 :=
  HeapSort.heapify (cells e) EFI_MEMORY_DESCRIPTOR.PhysicalStart

def efi_sort_map (e : EfiMap) (mem : ℕ → UInt8) : ℕ → UInt8 :=
  let ndescs := e.efi_map_size / e.efi_map_desc_size
  HeapSort.sortFrom (cells e) EFI_MEMORY_DESCRIPTOR.PhysicalStart (subW 64 ndescs 1)
    (heapify e ndescs mem)

/-- The descriptor behind `previous`, or the first one; 0 behind the last.  `sorted` is static. -/
def efi_walk_map (e : EfiMap) (previous : ℕ) (sorted : Bool) (mem : ℕ → UInt8) :
    ℕ × Bool × (ℕ → UInt8) :=
  if previous = 0 then
    if sorted then (e.efi_map, sorted, mem) else (e.efi_map, true, efi_sort_map e mem)
  else
    let next := addW 64 previous e.efi_map_desc_size
    let end_ := addW 64 e.efi_map e.efi_map_size
    if end_ ≤ next then (0, sorted, mem) else (next, sorted, mem)

/-- The descriptors from `desc` on, for a caller that changes nothing. -/
def walkFrom (e : EfiMap) : ℕ → ℕ → Bool × (ℕ → UInt8) → Option (List EFI_MEMORY_DESCRIPTOR)
  | 0, _, _ => none
  | fuel + 1, desc, st =>
      if desc = 0 then some []
      else
        let w := efi_walk_map e desc st.1 st.2
        (walkFrom e fuel w.1 w.2).map (descriptor desc st.2 :: ·)

/-- `for (desc = efi_walk_map(NULL); desc != NULL; desc = efi_walk_map(desc))`. -/
def walk (e : EfiMap) (fuel : ℕ) (sorted : Bool) (mem : ℕ → UInt8) :
    Option (List EFI_MEMORY_DESCRIPTOR) :=
  let w := efi_walk_map e 0 sorted mem
  walkFrom e fuel w.1 w.2

/-! ### The buffer -/

/-- A buffer of whole descriptors, of at least one. -/
structure EfiMap.Lawful (e : EfiMap) : Prop where
  size : DESCRIPTOR_SIZE ≤ e.efi_map_desc_size
  whole : e.efi_map_desc_size ∣ e.efi_map_size
  filled : 0 < e.efi_map_size
  placed : 0 < e.efi_map
  ends : e.efi_map + e.efi_map_size < 2 ^ 64

def EfiMap.ndescs (e : EfiMap) : ℕ := e.efi_map_size / e.efi_map_desc_size

/-- The descriptors, in the order of the buffer. -/
def EfiMap.descs (e : EfiMap) (mem : ℕ → UInt8) : List EFI_MEMORY_DESCRIPTOR :=
  (List.range e.ndescs).map fun i => descriptor (efi_map_entry e i) mem

variable {e : EfiMap} {mem mem' : ℕ → UInt8} {p c i j : ℕ}

theorem EfiMap.Lawful.ndescs_mul (h : e.Lawful) : e.ndescs * e.efi_map_desc_size = e.efi_map_size :=
  Nat.div_mul_cancel h.whole

theorem EfiMap.Lawful.ndescs_pos (h : e.Lawful) : 0 < e.ndescs := by
  have hmul := h.ndescs_mul
  have hfilled := h.filled
  by_contra h0
  rw [Nat.eq_zero_of_not_pos h0, Nat.zero_mul] at hmul
  omega

theorem entry_succ (e : EfiMap) (i : ℕ) :
    efi_map_entry e (i + 1) = efi_map_entry e i + e.efi_map_desc_size := by
  rw [efi_map_entry, efi_map_entry, Nat.succ_mul, ← Nat.add_assoc]

theorem entry_mono (e : EfiMap) (h : i ≤ j) : efi_map_entry e i ≤ efi_map_entry e j :=
  Nat.add_le_add_left (Nat.mul_le_mul_right _ h) _

theorem entry_apart (h : e.Lawful) (hij : i ≠ j) :
    efi_map_entry e i + DESCRIPTOR_SIZE ≤ efi_map_entry e j ∨
    efi_map_entry e j + DESCRIPTOR_SIZE ≤ efi_map_entry e i := by
  have hsize := h.size
  rcases Nat.lt_or_gt_of_ne hij with hlt | hlt
  · have := entry_mono e (Nat.succ_le_of_lt hlt)
    rw [entry_succ] at this
    exact .inl (by omega)
  · have := entry_mono e (Nat.succ_le_of_lt hlt)
    rw [entry_succ] at this
    exact .inr (by omega)

/-- The last descriptor ends with the buffer. -/
theorem EfiMap.Lawful.entry_ndescs (h : e.Lawful) :
    efi_map_entry e e.ndescs = e.efi_map + e.efi_map_size := by
  rw [efi_map_entry, h.ndescs_mul]

/-! ### Exchanges -/

theorem descriptor_eq (h : ∀ k < DESCRIPTOR_SIZE, mem' (p + k) = mem (c + k)) :
    descriptor p mem' = descriptor c mem := by
  have hload {w k : ℕ} (hk : k + w ≤ DESCRIPTOR_SIZE) : load w (p + k) mem' = load w (c + k) mem :=
    load_eq fun j hj => by
      rw [Nat.add_assoc, Nat.add_assoc]
      exact h (k + j) (by omega)
  have htype := @hload 4 0 (by decide)
  rw [Nat.add_zero, Nat.add_zero] at htype
  rw [descriptor, descriptor, htype, @hload 8 8 (by decide), @hload 8 24 (by decide)]

theorem exchange_outside {x : ℕ} (hp : x < p ∨ p + DESCRIPTOR_SIZE ≤ x)
    (hc : x < c ∨ c + DESCRIPTOR_SIZE ≤ x) :
    exchange p c mem x = mem x := by
  rw [exchange, write_outside (by rwa [length_bytes]), memmove_outside hp]

theorem exchange_right {k : ℕ} (hk : k < DESCRIPTOR_SIZE) :
    exchange p c mem (c + k) = mem (p + k) := by
  have hheld := holds_write c (bytes mem p DESCRIPTOR_SIZE) (memmove p c DESCRIPTOR_SIZE mem) k
    (by rwa [length_bytes])
  rw [exchange, hheld]
  simp [bytes]

theorem exchange_left {k : ℕ} (h : p + DESCRIPTOR_SIZE ≤ c ∨ c + DESCRIPTOR_SIZE ≤ p)
    (hk : k < DESCRIPTOR_SIZE) :
    exchange p c mem (p + k) = mem (c + k) := by
  rw [exchange, write_outside (by rw [length_bytes]; omega), memmove_inside hk]

theorem exchange_spec (h : e.Lawful) : (cells e).Swaps e.ndescs := by
  intro i _ j _ mem k _
  by_cases hkj : k = j
  · subst hkj
    rw [Equiv.swap_apply_right]
    exact descriptor_eq fun o ho => exchange_right ho
  · by_cases hki : k = i
    · subst hki
      rw [Equiv.swap_apply_left]
      exact descriptor_eq fun o ho => exchange_left (entry_apart h hkj) ho
    · rw [Equiv.swap_apply_of_ne_of_ne hki hkj]
      refine descriptor_eq fun o ho => exchange_outside ?_ ?_
      · have := entry_apart h hki
        omega
      · have := entry_apart h hkj
        omega

theorem EfiMap.Lawful.ndescs_lt (h : e.Lawful) : e.ndescs < 2 ^ 64 := by
  have hends := h.ends
  have hle : e.ndescs ≤ e.efi_map_size := Nat.div_le_self _ _
  omega

theorem efi_sort_map_spec (h : e.Lawful) (mem : ℕ → UInt8) :
    (e.descs (efi_sort_map e mem)).Pairwise (·.PhysicalStart ≤ ·.PhysicalStart) ∧
      (e.descs (efi_sort_map e mem)).Perm (e.descs mem) := by
  have hsub : subW 64 (e.efi_map_size / e.efi_map_desc_size) 1 = e.ndescs - 1 :=
    subW_of_le h.ndescs_pos h.ndescs_lt
  obtain ⟨hsorted, hshuffles⟩ :=
    HeapSort.sort_spec EFI_MEMORY_DESCRIPTOR.PhysicalStart (exchange_spec h) h.ndescs_pos mem
  rw [efi_sort_map, hsub]
  exact ⟨hsorted, hshuffles.perm⟩

/-! ### The walk -/

theorem entry_pos (h : e.Lawful) (i : ℕ) : 0 < efi_map_entry e i :=
  h.placed.trans_le (Nat.le_add_right _ _)

/-- One step of a walk. -/
theorem efi_walk_map_entry (h : e.Lawful) (hi : i < e.ndescs) (sorted : Bool) (mem : ℕ → UInt8) :
    efi_walk_map e (efi_map_entry e i) sorted mem =
      (if i + 1 < e.ndescs then efi_map_entry e (i + 1) else 0, sorted, mem) := by
  have hends := h.ends
  have hle : efi_map_entry e (i + 1) ≤ e.efi_map + e.efi_map_size :=
    h.entry_ndescs ▸ entry_mono e hi
  rw [efi_walk_map, if_neg (entry_pos h i).ne']
  simp only
  rw [addW_of_lt hends, addW_of_lt (by rw [← entry_succ]; omega), ← entry_succ]
  by_cases hlast : i + 1 < e.ndescs
  · have hlt := entry_mono e (Nat.succ_le_of_lt hlast)
    have hsize := h.size
    rw [entry_succ, h.entry_ndescs] at hlt
    rw [if_neg (by simp only [DESCRIPTOR_SIZE] at hsize; omega), if_pos hlast]
  · rw [show i + 1 = e.ndescs by omega, h.entry_ndescs, if_pos (Nat.le_refl _),
      if_neg (Nat.lt_irrefl _)]

theorem walkFrom_eq (h : e.Lawful) (sorted : Bool) (mem : ℕ → UInt8) {n fuel : ℕ} (hfuel : n < fuel)
    (hi : i + n = e.ndescs) (hn : 0 < n) : walkFrom e fuel (efi_map_entry e i) (sorted, mem) =
      some ((List.range' i n).map fun k => descriptor (efi_map_entry e k) mem) := by
  induction n generalizing i fuel with
  | zero => exact absurd hn (Nat.lt_irrefl 0)
  | succ n ih =>
      obtain ⟨fuel, rfl⟩ := Nat.exists_eq_add_one.mpr (Nat.zero_lt_of_lt hfuel)
      rw [walkFrom, if_neg (entry_pos h i).ne', efi_walk_map_entry h (by omega)]
      simp only
      cases n with
      | zero =>
          obtain ⟨fuel, rfl⟩ := Nat.exists_eq_add_one.mpr (Nat.lt_of_succ_lt_succ hfuel)
          rw [if_neg (by omega), walkFrom, if_pos rfl]
          rfl
      | succ n =>
          rw [if_pos (by omega), ih (by omega) (by omega) (Nat.succ_pos n),
            List.range'_succ (s := i), List.map_cons]
          rfl

theorem walk_sorted (h : e.Lawful) {fuel : ℕ} (hfuel : e.ndescs < fuel) (mem : ℕ → UInt8) :
    walk e fuel true mem = some (e.descs mem) := by
  have hentry : efi_map_entry e 0 = e.efi_map := by rw [efi_map_entry, Nat.zero_mul, Nat.add_zero]
  rw [walk, efi_walk_map, if_pos rfl, if_pos rfl]
  simp only
  rw [← hentry, walkFrom_eq h true mem hfuel (Nat.zero_add _) h.ndescs_pos, EfiMap.descs,
    List.range_eq_range']

/-- The first walk sorts. -/
theorem efi_walk_map_first (e : EfiMap) (mem : ℕ → UInt8) :
    efi_walk_map e 0 false mem = (e.efi_map, true, efi_sort_map e mem) := by
  rw [efi_walk_map, if_pos rfl, if_neg Bool.false_ne_true]

/-- **The walks**: the first one meets each descriptor of the map once, by rising addresses, and
every other one meets the same. -/
theorem efi_walk_map_sorted (h : e.Lawful) {fuel : ℕ} (hfuel : e.ndescs < fuel) (mem : ℕ → UInt8) :
    ∃ ds, walk e fuel false mem = some ds ∧ ds.Pairwise (·.PhysicalStart ≤ ·.PhysicalStart) ∧
      ds.Perm (e.descs mem) ∧
      walk e fuel (efi_walk_map e 0 false mem).2.1 (efi_walk_map e 0 false mem).2.2 = some ds := by
  obtain ⟨hsorted, hperm⟩ := efi_sort_map_spec h mem
  have hwalk := walk_sorted h hfuel (efi_sort_map e mem)
  refine ⟨e.descs (efi_sort_map e mem), ?_, hsorted, hperm, ?_⟩
  · rw [walk, efi_walk_map, if_pos rfl, if_pos rfl] at hwalk
    rw [walk, efi_walk_map_first]
    exact hwalk
  · simp only [efi_walk_map_first]
    exact hwalk

/-- Three descriptors of 48 bytes, of which the last comes first. -/
def threeDescs : EfiMap := ⟨0x1000, 144, 48⟩

theorem threeDescs_lawful : threeDescs.Lawful :=
  ⟨by decide, by decide, by decide, by decide, by decide⟩

def threeDescsMem : ℕ → UInt8 :=
  write 0x1069 [0x20] (write 0x1039 [0x30] (write 0x1009 [0x40] fun _ => 0))

theorem efi_walk_map_sorted_three :
    ∃ ds, walk threeDescs 4 false threeDescsMem = some ds ∧
    ds.map (·.PhysicalStart) = [0x2000, 0x3000, 0x4000] := by
  obtain ⟨ds, hds, hsorted, hperm, -⟩ :=
    efi_walk_map_sorted threeDescs_lawful (show threeDescs.ndescs < 4 by decide) threeDescsMem
  refine ⟨ds, hds, ?_⟩
  have hstarts : (ds.map (·.PhysicalStart)).Perm [0x2000, 0x3000, 0x4000] := by
    refine (hperm.map _).trans ?_
    decide
  exact hstarts.eq_of_pairwise' (List.pairwise_map.mpr hsorted) (by decide)

end Startup.Uefi
