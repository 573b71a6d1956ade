import Mathlib.Order.Interval.Set.LinearOrder
import RpiBsp.Startup.Uefi.EfiMap
import RpiBsp.Startup.Uefi.Raminfo

/-!
# Startup — UEFI — the map of the EFI entry point and the tables

`init_raminfo_efi` goes over the map three times: what is not conventional memory is avoided, then
the RAM of neighbouring descriptors is added in one go, and at last what is in use is taken out
again.  As what is in use is avoided before any RAM is added, the system page cannot end up in it.

* `efiFor_spec` — what holds before each descriptor of a walk holds after it;
* `first_pass`, `second_pass`, `third_pass` — what the passes leave;
* `init_raminfo_efi_told` — **main**: the tables say what the map says, and the page is in
conventional memory.
-/

namespace Startup.Uefi

open Support EFI_MEMORY_TYPE

/-! ### The program -/

/-- The types whose memory is in use until the system is up. -/
def EFI_MEMORY_TYPE.inUse : EFI_MEMORY_TYPE → Bool
  | EfiLoaderCode | EfiLoaderData | EfiBootServicesCode | EfiBootServicesData |
      EfiRuntimeServicesCode
  | EfiRuntimeServicesData | EfiACPIReclaimMemory => true
  | _ => false

/-- `cur_start` and `cur_size`. -/
abbrev Cur := ℕ × ℕ

def noCur : Cur := (2 ^ 64 - 1, 0)

def avoid (b : BootInfo) (d : EFI_MEMORY_DESCRIPTOR) (st : State) : Except Failure State := do
  let s ← call (avoid_ram b d.PhysicalStart d.nbytes st.tables)
  return { st with tables := s }

def takeOut (d : EFI_MEMORY_DESCRIPTOR) (st : State) : Except Failure State := do
  let r ← call (alloc_ram d.PhysicalStart d.nbytes 0 st.tables)
  return { st with tables := r.2 }

/-- The descriptor's RAM, behind the last one's or as a new start. -/
def join (b : BootInfo) (page : RamState → List UInt8) (desc sz : ℕ) (x : Cur × State) :
    Except Failure (Cur × State) :=
  if load 8 (desc + 8) x.2.mem = addW 64 x.1.1 x.1.2 then .ok ((x.1.1, addW 64 x.1.2 sz), x.2)
  else do
    let st ← addRam b page x.1.1 x.1.2 x.2
    return ((load 8 (desc + 8) st.mem, sz), st)

/-- The `switch` on the type of the descriptor. -/
def efiVisit (b : BootInfo) (page : RamState → List UInt8) (pass desc : ℕ) (x : Cur × State) :
    Except Failure (Cur × State) :=
  let d := descriptor desc x.2.mem
  if d.Is EFI_MEMORY_TYPE.inUse then do
    let st ← if pass = 0 then avoid b d x.2 else .ok x.2
    let st ← if pass = 2 then takeOut d st else .ok st
    if pass = 1 then join b page desc d.nbytes (x.1, st) else return (x.1, st)
  else if d.Is (· = EfiConventionalMemory) then
    if pass = 1 then join b page desc d.nbytes x else .ok x
  else do
    let st ← if pass = 0 then avoid b d x.2 else .ok x.2
    return (x.1, st)

/-- The walk that a loop is at. -/
structure EfiState extends State where
  sorted : Bool

/-- `for (desc = efi_walk_map(NULL); desc != NULL; desc = efi_walk_map(desc))`, from `desc` on. -/
def efiFor {α : Type} (e : EfiMap) (body : ℕ → α × State → Except Failure (α × State)) :
    ℕ → ℕ → α × EfiState → Except Failure (α × EfiState)
  | 0, _, _ => .error (.ram .outside)
  | fuel + 1, desc, x =>
      if desc = 0 then .ok x
      else do
        let y ← body desc (x.1, x.2.toState)
        let w := efi_walk_map e desc x.2.sorted y.2.mem
        efiFor e body fuel w.1 (y.1, ⟨⟨y.2.tables, w.2.2⟩, w.2.1⟩)

/-- One pass. -/
def efiPass (b : BootInfo) (page : RamState → List UInt8) (e : EfiMap) (fuel pass : ℕ)
    (st : EfiState) :
    Except Failure EfiState := do
  let w := efi_walk_map e 0 st.sorted st.mem
  let x ← efiFor e (efiVisit b page pass) fuel w.1 (noCur, ⟨⟨st.tables, w.2.2⟩, w.2.1⟩)
  if pass = 1 ∧ x.1.2 ≠ 0 then
    let st ← addRam b page x.1.1 x.1.2 x.2.toState
    return ⟨st, x.2.sorted⟩
  else return x.2

def init_raminfo_efi (b : BootInfo) (page : RamState → List UInt8) (e : EfiMap) (fuel : ℕ)
    (st : EfiState) :
    Except Failure EfiState := do
  let st ← efiPass b page e fuel 0 st
  let st ← efiPass b page e fuel 1 st
  efiPass b page e fuel 2 st

/-! ### What it is for -/

/-- The addresses of the descriptors that are not conventional memory, of types that are known or
not. -/
def otherSpace (D : List EFI_MEMORY_DESCRIPTOR) : Set ℕ :=
  {x | ∃ d ∈ D, ¬ d.Is (· = EfiConventionalMemory) ∧ x ∈ d.range}

/-- The firmware keeps to its word: at least one page each, no address above the last one of the
bus, none in two descriptors, and the buffer is loader data. -/
structure EfiMap.Told (e : EfiMap) (mem : ℕ → UInt8) : Prop extends e.Lawful where
  pages : ∀ d ∈ e.descs mem, 0 < d.NumberOfPages
  limit : ∀ d ∈ e.descs mem, d.PhysicalStart + d.NumberOfPages * 0x1000 ≤ RAM_LIMIT
  apart : (e.descs mem).Pairwise fun d d' => Disjoint d.range d'.range
  buffer : Set.Ico e.efi_map (e.efi_map + e.efi_map_size) ⊆ space (e.descs mem) (· = EfiLoaderData)

/-- The tables say what the map says: conventional memory is free, less the image; all other memory
of the map is avoided; and the system page, if it was placed, is avoided too, in memory that is
free. -/
structure EfiTold (b : BootInfo) (D : List EFI_MEMORY_DESCRIPTOR) (s : RamState) : Prop where
  ram : s.ram.bytes = space D (· = EfiConventionalMemory) \ image b
  avoided : otherSpace D ⊆ s.avoid.bytes
  placed : s.temp_syspage ≠ NULL_PADDR → pageAt s.temp_syspage ⊆ s.ram.bytes ∩ s.avoid.bytes

variable {b : BootInfo} {s s' : RamState} {X A O : Set ℕ} {start size i n fuel : ℕ}
    {page : RamState → List UInt8}
  {e : EfiMap} {st st' : State} {x y : Cur × State} {m mem : ℕ → UInt8} {d : EFI_MEMORY_DESCRIPTOR}
  {D D' : List EFI_MEMORY_DESCRIPTOR}

/-! ### The map -/

theorem inUse_not_conventional (h : d.Is EFI_MEMORY_TYPE.inUse) :
    ¬ d.Is (· = EfiConventionalMemory) := by
  obtain ⟨t, ht, hq⟩ := exists_type h
  rw [is_iff ht]
  cases t <;> simp_all [EFI_MEMORY_TYPE.inUse]

/-- The types that are RAM to this startup, in the end or on the way. -/
def EFI_MEMORY_TYPE.usable (t : EFI_MEMORY_TYPE) : Bool := t = EfiConventionalMemory || t.inUse

theorem usable_iff :
    d.Is EFI_MEMORY_TYPE.usable ↔ d.Is (· = EfiConventionalMemory) ∨
    d.Is EFI_MEMORY_TYPE.inUse := by
  cases ht : memoryTypes[d.Type_]? with
  | none => simp [EFI_MEMORY_DESCRIPTOR.Is, ht]
  | some t => simp only [is_iff ht, EFI_MEMORY_TYPE.usable, Bool.or_eq_true]

theorem space_concat (D : List EFI_MEMORY_DESCRIPTOR) (d : EFI_MEMORY_DESCRIPTOR)
    (q : EFI_MEMORY_TYPE → Bool) :
    space (D ++ [d]) q = space D q ∪ if d.Is q then d.range else ∅ := by
  ext y
  by_cases hd : d.Is q <;> simp [space, hd, or_and_right, exists_or]

theorem otherSpace_concat (D : List EFI_MEMORY_DESCRIPTOR) (d : EFI_MEMORY_DESCRIPTOR) :
    otherSpace (D ++ [d]) = otherSpace D ∪ if d.Is (· = EfiConventionalMemory) then ∅
      else d.range := by
  ext y
  by_cases hd : d.Is (· = EfiConventionalMemory) <;> simp [otherSpace, hd, or_and_right, exists_or]

theorem space_inUse_subset (D : List EFI_MEMORY_DESCRIPTOR) :
    space D EFI_MEMORY_TYPE.inUse ⊆ otherSpace D := by
  rintro y ⟨d, hd, hq, hy⟩
  exact ⟨d, hd, inUse_not_conventional hq, hy⟩

theorem space_perm (h : D'.Perm D) (q : EFI_MEMORY_TYPE → Bool) : space D' q = space D q := by
  ext y
  simp only [space, Set.mem_ofPred_eq, h.mem_iff]

theorem otherSpace_perm (h : D'.Perm D) : otherSpace D' = otherSpace D := by
  ext y
  simp only [otherSpace, Set.mem_ofPred_eq, h.mem_iff]

/-- Where the descriptors are in the buffer does not matter. -/
theorem EfiMap.Told.perm (h : e.Told m) (hp : (e.descs mem).Perm (e.descs m)) : e.Told mem where
  toLawful := h.toLawful
  pages d hd := h.pages d (hp.mem_iff.mp hd)
  limit d hd := h.limit d (hp.mem_iff.mp hd)
  apart := (hp.pairwise_iff fun hxy => hxy.symm).mpr h.apart
  buffer := (space_perm hp _).symm ▸ h.buffer

/-- Conventional memory has no address in common with the rest of the map. -/
theorem EfiMap.Told.disjoint (h : e.Told m) :
    Disjoint (space (e.descs m) (· = EfiConventionalMemory)) (otherSpace (e.descs m)) := by
  refine Set.disjoint_left.mpr ?_
  rintro y ⟨d, hd, hdq, hy⟩ ⟨d', hd', hdq', hy'⟩
  have hne : d ≠ d' := by
    rintro rfl
    exact hdq' hdq
  have : Std.Symm fun d e : EFI_MEMORY_DESCRIPTOR => Disjoint d.range e.range :=
    ⟨fun _ _ hde => hde.symm⟩
  exact Set.disjoint_left.mp (h.apart.forall hd hd' hne) hy hy'

/-- The buffer is in use. -/
theorem EfiMap.Told.buffer_other (h : e.Told m) :
    Set.Ico e.efi_map (e.efi_map + e.efi_map_size) ⊆ otherSpace (e.descs m) :=
  h.buffer.trans ((space_mono fun t => by cases t <;> decide).trans (space_inUse_subset _))

/-- The descriptor at `i`. -/
def EfiMap.at_ (e : EfiMap) (m : ℕ → UInt8) (i : ℕ) : EFI_MEMORY_DESCRIPTOR :=
  descriptor (efi_map_entry e i) m

theorem take_succ_descs (hi : i < e.ndescs) :
    (e.descs m).take (i + 1) = (e.descs m).take i ++ [e.at_ m i] := by
  rw [List.take_add_one, EfiMap.descs, List.getElem?_map, List.getElem?_range hi]
  rfl

theorem take_ndescs : (e.descs m).take e.ndescs = e.descs m :=
  List.take_of_length_le (by rw [EfiMap.descs, List.length_map, List.length_range])

theorem at_mem (hi : i < e.ndescs) : e.at_ m i ∈ e.descs m :=
  List.mem_map.mpr ⟨i, List.mem_range.mpr hi, rfl⟩

/-- A descriptor of the map that the firmware told. -/
structure Stated (d : EFI_MEMORY_DESCRIPTOR) : Prop where
  pages : 0 < d.NumberOfPages
  limit : d.PhysicalStart + d.NumberOfPages * 0x1000 ≤ RAM_LIMIT

theorem EfiMap.Told.stated (h : e.Told m) (hi : i < e.ndescs) : Stated (e.at_ m i) :=
  ⟨h.pages _ (at_mem hi), h.limit _ (at_mem hi)⟩

theorem RAM_LIMIT_lt : RAM_LIMIT < NULL_PADDR := by decide

theorem Stated.nbytes (h : Stated d) : d.nbytes = d.NumberOfPages * 0x1000 :=
  Nat.mod_eq_of_lt (((Nat.le_add_left _ _).trans h.limit).trans_lt (by decide))

theorem Stated.nbytes_pos (h : Stated d) : 0 < d.nbytes := by
  rw [h.nbytes]
  exact Nat.mul_pos h.pages (by decide)

theorem Stated.ends (h : Stated d) : d.PhysicalStart + d.nbytes ≤ RAM_LIMIT := h.nbytes ▸ h.limit

theorem Stated.range (h : Stated d) :
    d.range = Set.Ico d.PhysicalStart (d.PhysicalStart + d.nbytes) := by
  rw [h.nbytes]
  rfl

/-- The descriptors are read from the buffer. -/
theorem EfiMap.Lawful.at_congr (h : e.Lawful) (hi : i < e.ndescs)
    (hmem : ∀ x ∈ Set.Ico e.efi_map (e.efi_map + e.efi_map_size), mem x = m x) :
    descriptor (efi_map_entry e i) mem = e.at_ m i := by
  refine descriptor_eq fun k hk => hmem _ ⟨?_, ?_⟩
  · rw [efi_map_entry]
    omega
  · have hle := entry_mono e (Nat.succ_le_of_lt hi)
    have hsize := h.size
    rw [entry_succ, h.entry_ndescs] at hle
    omega

/-! ### The loop -/

/-- What holds before each descriptor of a walk holds after it. -/
theorem efiFor_spec {α : Type} (h : e.Lawful) {body : ℕ → α × State → Except Failure (α × State)}
    (P : ℕ → α × State → Prop)
    (hstep : ∀ i < e.ndescs, ∀ x y, P i x → body (efi_map_entry e i) x = .ok y → P (i + 1) y)
    {x y : α × EfiState}
    (hn : i + n = e.ndescs) (hpos : 0 < n) (hx : P i (x.1, x.2.toState))
    (hr : efiFor e body fuel (efi_map_entry e i) x = .ok y) :
    P e.ndescs (y.1, y.2.toState) ∧ y.2.sorted = x.2.sorted := by
  induction n generalizing i fuel x with
  | zero => exact absurd hpos (Nat.lt_irrefl 0)
  | succ n ih =>
      cases fuel with
      | zero => cases hr
      | succ fuel =>
          rw [efiFor, if_neg (entry_pos h i).ne'] at hr
          obtain ⟨z, hz, hr⟩ := bind_eq_ok.mp hr
          rw [efi_walk_map_entry h (by omega)] at hr
          have hnext := hstep i (by omega) _ _ hx hz
          cases n with
          | zero =>
              -- the last one
              rw [if_neg (by omega)] at hr
              cases fuel with
              | zero => cases hr
              | succ fuel =>
                  rw [efiFor, if_pos rfl] at hr
                  cases hr
                  rw [← hn]
                  exact ⟨hnext, rfl⟩
          | succ n =>
              rw [if_pos (by omega)] at hr
              exact ih (x := (z.1, ⟨z.2, x.2.sorted⟩)) (by omega) (Nat.succ_pos n) hnext hr

theorem efiFor_all {α : Type} (h : e.Lawful) {body : ℕ → α × State → Except Failure (α × State)}
    (P : ℕ → α × State → Prop)
    (hstep : ∀ i < e.ndescs, ∀ x y, P i x → body (efi_map_entry e i) x = .ok y → P (i + 1) y)
    {x y : α × EfiState}
    (hx : P 0 (x.1, x.2.toState)) (hr : efiFor e body fuel e.efi_map x = .ok y) :
    P e.ndescs (y.1, y.2.toState) ∧ y.2.sorted = x.2.sorted := by
  have hentry : efi_map_entry e 0 = e.efi_map := by rw [efi_map_entry, Nat.zero_mul, Nat.add_zero]
  rw [← hentry] at hr
  exact efiFor_spec h P hstep (Nat.zero_add _) h.ndescs_pos hx hr

/-! ### The passes, descriptor by descriptor -/

theorem efiVisit_zero (desc : ℕ) (x : Cur × State) : efiVisit b page 0 desc x =
    if (descriptor desc x.2.mem).Is (· = EfiConventionalMemory) then .ok x
    else avoid b (descriptor desc x.2.mem) x.2 >>= fun st => .ok (x.1, st) := by
  rw [efiVisit]
  dsimp only
  by_cases hu : (descriptor desc x.2.mem).Is EFI_MEMORY_TYPE.inUse
  · rw [if_pos hu, if_neg (inUse_not_conventional hu)]
    simp
  · rw [if_neg hu]
    simp
    rfl

theorem efiVisit_one (desc : ℕ) (x : Cur × State) : efiVisit b page 1 desc x =
    if (descriptor desc x.2.mem).Is EFI_MEMORY_TYPE.usable then
      join b page desc (descriptor desc x.2.mem).nbytes x else .ok x := by
  rw [efiVisit]
  dsimp only
  by_cases hu : (descriptor desc x.2.mem).Is EFI_MEMORY_TYPE.inUse
  · rw [if_pos hu, if_pos (usable_iff.mpr (.inr hu))]
    simp [ok_bind]
  · rw [if_neg hu]
    simp [usable_iff, hu]

theorem efiVisit_two (desc : ℕ) (x : Cur × State) : efiVisit b page 2 desc x =
    if (descriptor desc x.2.mem).Is EFI_MEMORY_TYPE.inUse then
      takeOut (descriptor desc x.2.mem) x.2 >>= fun st => .ok (x.1, st) else .ok x := by
  rw [efiVisit]
  dsimp only
  by_cases hu : (descriptor desc x.2.mem).Is EFI_MEMORY_TYPE.inUse
  · rw [if_pos hu, if_pos hu]
    simp
    rfl
  · rw [if_neg hu, if_neg hu]
    simp

/-! ### RAM and the system page -/

/-- Nothing is added, less the image. -/
theorem Kept.added_none (hb : b.Sane) (h : Kept s X A) (hs : Uefi.added b start 0 s = .ok s') :
    Kept s' (X \ image b) A ∧ s'.temp_syspage = s.temp_syspage := by
  obtain ⟨asinfo, -, hs⟩ := bind_eq_ok.mp hs
  obtain ⟨r, -, hs⟩ := bind_eq_ok.mp hs
  rw [if_neg (not_not.mpr h.inited)] at hs
  obtain ⟨t, ht, hs⟩ := bind_eq_ok.mp hs
  cases ht
  obtain ⟨r', hr', hs⟩ := bind_eq_ok.mp hs
  cases hs
  have hk : Kept { s with asinfo := r.2 } X A := ⟨h.inited, h.sysram, h.ram, h.avoid⟩
  exact hk.image_out hb hr'

/-- What a search for a place for the system page finds is free and not to be avoided. -/
theorem Kept.found (h : Kept s X A) (hX : ∀ x ∈ X, x < RAM_LIMIT) {p : ℕ} (hnull : p ≠ NULL_PADDR)
    (hp : find_ram s TEMP_SYSPAGE_SIZE PAGESIZE 0 0 = .ok p) :
      pageAt p ⊆ X ∧ Disjoint (pageAt p) A := by
  obtain ⟨l, hl, rfl⟩ := h.ram
  obtain ⟨al, hal, rfl⟩ := h.avoid
  have hlim : ∀ u ∈ l, u.hi ≤ RAM_LIMIT := by
    intro u hu
    have hprop := hl.normal.proper u hu
    have := hX (u.hi - 1) (mem_cover.mpr ⟨u, hu, ⟨by omega, by omega⟩⟩)
    omega
  obtain ⟨q, hq, hres⟩ :=
    find_ram_spec hl hal hlim TEMP_SYSPAGE_SIZE (show 0 < PAGESIZE by decide) (by decide)
  cases hp.symm.trans hq
  have husable := hres.resolve_left hnull
  exact ⟨husable.cover, Set.disjoint_left.mpr fun x hx => husable.off x hx.1 hx.2⟩

/-- RAM is added, and the page, if it has a place, is free, avoided, and off the addresses `O`. -/
structure Stands (b : BootInfo) (O : Set ℕ) (s : RamState) (X A : Set ℕ) :
    Prop extends Kept s X A where
  limit : ∀ x ∈ X, x < RAM_LIMIT
  image : Disjoint X (image b)
  other : O ⊆ A
  page : s.temp_syspage ≠ NULL_PADDR → pageAt s.temp_syspage ⊆ X ∧ pageAt s.temp_syspage ⊆ A ∧
    Disjoint (pageAt s.temp_syspage) O

/-- What is in `cur_start` and `cur_size`. -/
def Cur.set (c : Cur) : Set ℕ := Set.Ico c.1 (c.1 + c.2)

/-- Either nothing, or RAM below the limit. -/
def Cur.Ok (c : Cur) : Prop := c = noCur ∨ 0 < c.2 ∧ c.1 + c.2 ≤ RAM_LIMIT

theorem noCur_set : Cur.set noCur = ∅ := Set.Ico_self _

theorem Cur.Ok.below {c : Cur} (h : c.Ok) : ∀ x ∈ c.set, x < RAM_LIMIT := by
  rcases h with rfl | ⟨-, hlim⟩
  · simp [noCur_set]
  · exact fun x hx => hx.2.trans_le hlim

theorem Stands.added (hb : b.Sane) (h : Stands b O s X A) {c : Cur} (hc : c.Ok)
    (hs : added b c.1 c.2 s = .ok s') :
    Kept s' ((X ∪ c.set) \ Uefi.image b) A ∧ s'.temp_syspage = s.temp_syspage := by
  rcases hc with rfl | ⟨hsize, hlim⟩
  · rw [noCur_set, Set.union_empty]
    exact h.toKept.added_none hb hs
  · exact h.toKept.added hb hsize (hlim.trans_lt (by decide)) hs

/-- One `add_ram`, when what is in `O` is avoided. -/
theorem Stands.addRam (hb : b.Sane) (hpage : ∀ s, (page s).length ≤ TEMP_SYSPAGE_SIZE)
    (h : Stands b O st.tables X A) {c : Cur} (hc : c.Ok) (hr : addRam b page c.1 c.2 st = .ok st') :
    (∃ A', Stands b O st'.tables ((X ∪ c.set) \ Uefi.image b) A') ∧
    ∀ x ∈ O, st'.mem x = st.mem x := by
  obtain ⟨s₁, hs₁, hplace, hmem⟩ := addRam_parts hr
  obtain ⟨hk, htemp⟩ := h.added hb hc hs₁
  have hlimit : ∀ x ∈ (X ∪ c.set) \ Uefi.image b, x < RAM_LIMIT := by
    rintro x ⟨hx | hx, -⟩
    · exact h.limit x hx
    · exact hc.below x hx
  by_cases hnull : st.tables.temp_syspage = NULL_PADDR
  · rcases placePage_eq (htemp.trans hnull) hplace with ⟨-, heq⟩ | ⟨p, hp, hfind, havoid⟩
    · -- no room yet
      have hnull' : st'.tables.temp_syspage = NULL_PADDR := by rw [heq, htemp, hnull]
      rw [if_pos hnull'] at hmem
      exact ⟨⟨A, heq ▸ hk, hlimit, Set.disjoint_sdiff_left, h.other, fun hn => absurd hnull' hn⟩,
        fun x _ => by rw [hmem]⟩
    · -- the page gets its place
      obtain ⟨hk', htemp'⟩ := hk.placed hp hfind havoid
      obtain ⟨hin, hoff⟩ := hk.found hlimit hp hfind
      have hoffO := hoff.mono_right h.other
      rw [← htemp'] at hp hk' hin hoffO
      rw [if_neg hp] at hmem
      refine ⟨⟨_, hk', hlimit, Set.disjoint_sdiff_left, h.other.trans Set.subset_union_left,
        fun _ => ⟨hin, ?_, hoffO⟩⟩, ?_⟩
      · rw [htemp']
        exact Set.subset_union_right
      · rw [hmem]
        exact write_off (hpage _) hoffO
  · -- it is where it was
    rw [placePage_placed (htemp ▸ hnull)] at hplace
    have heq := Except.ok.inj hplace
    rw [heq] at hk htemp
    rw [if_neg (htemp ▸ hnull)] at hmem
    obtain ⟨hin, hA, hO⟩ := h.page hnull
    rw [← htemp] at hin hA hO
    have hin' : pageAt st'.tables.temp_syspage ⊆ (X ∪ c.set) \ Uefi.image b := fun x hx =>
      ⟨.inl (hin hx), Set.disjoint_left.mp h.image (hin hx)⟩
    exact ⟨⟨A, hk, hlimit, Set.disjoint_sdiff_left, h.other, fun _ => ⟨hin', hA, hO⟩⟩,
      hmem ▸ write_off (hpage _) hO⟩

/-! ### The passes -/

/-- What is not conventional memory is avoided, and nothing else is done. -/
structure Avoided (e : EfiMap) (m : ℕ → UInt8) (i : ℕ) (x : Cur × State) : Prop where
  mem : x.2.mem = m
  temp : x.2.tables.temp_syspage = NULL_PADDR
  kept : ∃ A, otherSpace ((e.descs m).take i) ⊆ A ∧ Kept x.2.tables ∅ A

theorem avoid_spec (h : Kept st.tables X A) (hd : Stated d) (hr : avoid b d st = .ok st') :
    Kept st'.tables X (A ∪ d.range) ∧ st'.tables.temp_syspage = st.tables.temp_syspage ∧
    st'.mem = st.mem := by
  obtain ⟨s', hs', hr⟩ := bind_eq_ok.mp hr
  cases hr
  have hpos := hd.nbytes_pos
  obtain ⟨hk, htemp⟩ := h.avoid_ram (hd.ends.trans_lt (by decide)) (by omega) (call_eq_ok.mp hs')
  rw [hd.range]
  exact ⟨hk, htemp, rfl⟩

theorem Avoided.visit (he : e.Told m) (hi : i < e.ndescs) (h : Avoided e m i x)
    (hr : efiVisit b page 0 (efi_map_entry e i) x = .ok y) : Avoided e m (i + 1) y := by
  obtain ⟨A, hA, hk⟩ := h.kept
  have hat : descriptor (efi_map_entry e i) x.2.mem = e.at_ m i := by rw [h.mem, EfiMap.at_]
  rw [efiVisit_zero, hat] at hr
  split_ifs at hr with hconv
  · cases hr
    refine ⟨h.mem, h.temp, A, ?_, hk⟩
    rwa [take_succ_descs hi, otherSpace_concat, if_pos hconv, Set.union_empty]
  · obtain ⟨st', hst', hr⟩ := bind_eq_ok.mp hr
    cases hr
    obtain ⟨hk', htemp, hmem⟩ := avoid_spec hk (he.stated hi) hst'
    refine ⟨hmem.trans h.mem, htemp.trans h.temp, _, ?_, hk'⟩
    rw [take_succ_descs hi, otherSpace_concat, if_neg hconv]
    exact Set.union_subset_union_left _ hA

/-- The RAM of the descriptors is added, but for what `cur_start` and `cur_size` hold. -/
structure Joined (b : BootInfo) (e : EfiMap) (m : ℕ → UInt8) (i : ℕ) (x : Cur × State) : Prop where
  mem : ∀ a ∈ otherSpace (e.descs m), x.2.mem a = m a
  cur : x.1.Ok
  stands : ∃ X A, Stands b (otherSpace (e.descs m)) x.2.tables X A ∧
    (X ∪ x.1.set) \ image b = space ((e.descs m).take i) EFI_MEMORY_TYPE.usable \ image b

theorem join_same {desc sz : ℕ} (h : load 8 (desc + 8) x.2.mem = addW 64 x.1.1 x.1.2) :
    join b page desc sz x = .ok ((x.1.1, addW 64 x.1.2 sz), x.2) := if_pos h

theorem join_other {desc sz : ℕ} (h : load 8 (desc + 8) x.2.mem ≠ addW 64 x.1.1 x.1.2)
    (hr : join b page desc sz x = .ok y) : ∃ st, addRam b page x.1.1 x.1.2 x.2 = .ok st ∧
      y = ((load 8 (desc + 8) st.mem, sz), st) := by
  rw [join, if_neg h] at hr
  obtain ⟨st, hst, hr⟩ := bind_eq_ok.mp hr
  exact ⟨st, hst, (Except.ok.inj hr).symm⟩

theorem Joined.join (hb : b.Sane) (hpage : ∀ s, (page s).length ≤ TEMP_SYSPAGE_SIZE) (he : e.Told m)
    (hi : i < e.ndescs) (h : Joined b e m i x) (hu : (e.at_ m i).Is EFI_MEMORY_TYPE.usable)
    (hr : join b page (efi_map_entry e i) (e.at_ m i).nbytes x = .ok y) :
      Joined b e m (i + 1) y := by
  obtain ⟨X, A, hs, hX⟩ := h.stands
  have hd := he.stated hi
  have hends := hd.ends
  have hpos := hd.nbytes_pos
  have hlim : RAM_LIMIT < 2 ^ 64 := by decide
  have hphys {mem : ℕ → UInt8} (hmem : ∀ a ∈ otherSpace (e.descs m), mem a = m a) :
      load 8 (efi_map_entry e i + 8) mem = (e.at_ m i).PhysicalStart := by
    rw [← he.toLawful.at_congr hi fun a ha => hmem a (he.buffer_other ha)]
    rfl
  have hspace : space ((e.descs m).take (i + 1)) EFI_MEMORY_TYPE.usable \ image b =
      (X ∪ x.1.set ∪ (e.at_ m i).range) \ image b := by
    rw [take_succ_descs hi, space_concat, if_pos hu, Set.union_sdiff_distrib, ← hX,
      ← Set.union_sdiff_distrib]
  by_cases hsame : load 8 (efi_map_entry e i + 8) x.2.mem = addW 64 x.1.1 x.1.2
  · -- it goes on where the last one ended
    rw [join_same hsame] at hr
    cases hr
    rw [hphys h.mem] at hsame
    rcases h.cur with hnone | ⟨hsize, hlim'⟩
    · rw [hnone] at hsame
      have : addW 64 noCur.1 noCur.2 = NULL_PADDR := by decide
      have := RAM_LIMIT_lt
      omega
    · rw [addW_of_lt (by omega)] at hsame
      have hsum : addW 64 x.1.2 (e.at_ m i).nbytes = x.1.2 + (e.at_ m i).nbytes :=
        addW_of_lt (by omega)
      refine ⟨h.mem, .inr ⟨?_, ?_⟩, X, A, hs, ?_⟩
      · dsimp only
        omega
      · dsimp only
        omega
      · have hset : Cur.set (x.1.1, addW 64 x.1.2 (e.at_ m i).nbytes) = x.1.set ∪
            (e.at_ m i).range := by
          rw [hsum, Cur.set, Cur.set, hd.range, hsame,
            Set.Ico_union_Ico_eq_Ico (Nat.le_add_right _ _) (Nat.le_add_right _ _), Nat.add_assoc]
        rw [hset, hspace, Set.union_assoc]
  · -- what was there is added
    obtain ⟨st, hst, rfl⟩ := join_other hsame hr
    obtain ⟨⟨A', hs'⟩, hmem⟩ := hs.addRam hb hpage h.cur hst
    have hmem' : ∀ a ∈ otherSpace (e.descs m), st.mem a = m a :=
      fun a ha => (hmem a ha).trans (h.mem a ha)
    rw [hphys hmem']
    refine ⟨hmem', .inr ⟨hpos, hends⟩, _, A', hs', ?_⟩
    rw [hspace, hd.range, Set.union_sdiff_distrib, Set.sdiff_sdiff, Set.union_self,
      ← Set.union_sdiff_distrib]
    rfl

theorem Joined.visit (hb : b.Sane) (hpage : ∀ s, (page s).length ≤ TEMP_SYSPAGE_SIZE)
    (he : e.Told m) (hi : i < e.ndescs)
    (h : Joined b e m i x) (hr : efiVisit b page 1 (efi_map_entry e i) x = .ok y) :
      Joined b e m (i + 1) y := by
  rw [efiVisit_one, he.toLawful.at_congr hi fun a ha => h.mem a (he.buffer_other ha)] at hr
  split_ifs at hr with hu
  · exact h.join hb hpage he hi hu hr
  · cases hr
    obtain ⟨X, A, hs, hX⟩ := h.stands
    refine ⟨h.mem, h.cur, X, A, hs, ?_⟩
    rw [hX, take_succ_descs hi, space_concat, if_neg hu, Set.union_empty]

/-- What is in use is taken out of what was added. -/
structure Taken (e : EfiMap) (m : ℕ → UInt8) (t : ℕ) (X A : Set ℕ) (i : ℕ)
    (x : Cur × State) : Prop where
  mem : ∀ a ∈ otherSpace (e.descs m), x.2.mem a = m a
  temp : x.2.tables.temp_syspage = t
  kept : Kept x.2.tables (X \ space ((e.descs m).take i) EFI_MEMORY_TYPE.inUse) A

theorem Taken.visit {t : ℕ} (he : e.Told m) (hi : i < e.ndescs) (h : Taken e m t X A i x)
    (hr : efiVisit b page 2 (efi_map_entry e i) x = .ok y) : Taken e m t X A (i + 1) y := by
  rw [efiVisit_two, he.toLawful.at_congr hi fun a ha => h.mem a (he.buffer_other ha)] at hr
  have hd := he.stated hi
  have hk := h.kept
  split_ifs at hr with hu
  · obtain ⟨st', hst', hr⟩ := bind_eq_ok.mp hr
    cases hr
    obtain ⟨r, halloc, hst'⟩ := bind_eq_ok.mp hst'
    cases hst'
    have hne : (e.at_ m i).PhysicalStart ≠ NULL_PADDR :=
      (((Nat.le_add_right _ _).trans hd.ends).trans_lt RAM_LIMIT_lt).ne
    obtain ⟨hk', htemp⟩ := hk.alloc (hd.ends.trans_lt (by decide)) hne (call_eq_ok.mp halloc)
    refine ⟨h.mem, htemp.trans h.temp, ?_⟩
    rw [take_succ_descs hi, space_concat, if_pos hu, hd.range, ← Set.sdiff_sdiff]
    exact hk'
  · cases hr
    refine ⟨h.mem, h.temp, ?_⟩
    rw [take_succ_descs hi, space_concat, if_neg hu, Set.union_empty]
    exact hk

/-! ### The three passes -/

variable {est est' : EfiState}

/-- Behind the first walk the map is sorted, and stays as it is. -/
theorem efi_walk_map_null (e : EfiMap) (sorted : Bool) (mem : ℕ → UInt8) :
    efi_walk_map e 0 sorted mem =
      (e.efi_map, true, if sorted then mem else efi_sort_map e mem) := by
  rw [efi_walk_map, if_pos rfl]
  cases sorted with
  | true => rw [if_pos rfl, if_pos rfl]
  | false => rw [if_neg Bool.false_ne_true, if_neg Bool.false_ne_true]

theorem first_pass (he : e.Told m) (hm : m = if est.sorted then est.mem else efi_sort_map e est.mem)
    (hs : Ready est.tables) (hr : efiPass b page e fuel 0 est = .ok est') :
    est'.sorted = true ∧ est'.mem = m ∧ est'.tables.temp_syspage = NULL_PADDR ∧
      ∃ A, otherSpace (e.descs m) ⊆ A ∧ Kept est'.tables ∅ A := by
  obtain ⟨al, hal⟩ := hs.avoid
  obtain ⟨x, hx, hr⟩ := bind_eq_ok.mp hr
  rw [if_neg (by simp)] at hr
  cases hr
  rw [efi_walk_map_null, ← hm] at hx
  have hstart : Avoided e m 0 (noCur, ⟨est.tables, m⟩) :=
    ⟨rfl, hs.temp, cover al, by simp [otherSpace], hs.inited, hs.sysram, ⟨[], hs.ram, cover_nil⟩,
      al, hal, rfl⟩
  obtain ⟨⟨hmem, htemp, A, hA, hk⟩, hsorted⟩ :=
    efiFor_all he.toLawful (Avoided e m) (fun i hi x y hP hr => hP.visit he hi hr) hstart hx
  rw [take_ndescs] at hA
  exact ⟨hsorted, hmem, htemp, A, hA, hk⟩

theorem second_pass (hb : b.Sane) (hpage : ∀ s, (page s).length ≤ TEMP_SYSPAGE_SIZE) (he : e.Told m)
    (hsorted : est.sorted = true) (hm : est.mem = m) (htemp : est.tables.temp_syspage = NULL_PADDR)
    (hA : otherSpace (e.descs m) ⊆ A) (hk : Kept est.tables ∅ A)
    (hr : efiPass b page e fuel 1 est = .ok est') :
    est'.sorted = true ∧ (∀ a ∈ otherSpace (e.descs m), est'.mem a = m a) ∧
      ∃ A', Stands b (otherSpace (e.descs m))
      est'.tables (space (e.descs m) EFI_MEMORY_TYPE.usable \ image b) A' := by
  obtain ⟨x, hx, hr⟩ := bind_eq_ok.mp hr
  rw [efi_walk_map_null, if_pos hsorted, hm] at hx
  have hstart : Joined b e m 0 (noCur, ⟨est.tables, m⟩) :=
    ⟨fun _ _ => rfl, .inl rfl, ∅, A,
      ⟨hk, by simp, Set.empty_disjoint _, hA, fun hne =>
        absurd htemp hne⟩, by simp [noCur_set, space]⟩
  obtain ⟨⟨hmem, hcur, X, A', hs, hX⟩, hsort⟩ :=
    efiFor_all he.toLawful (Joined b e m) (fun i hi x y hP hr => hP.visit hb hpage he hi hr)
      hstart hx
  dsimp only at hmem hcur hs hX hsort
  rw [take_ndescs] at hX
  by_cases hsize : x.1.2 = 0
  · -- only behind no descriptor that is RAM
    rw [if_neg (by simp [hsize])] at hr
    cases hr
    rcases hcur with hnone | ⟨hpos, -⟩
    · rw [hnone, noCur_set, Set.union_empty, hs.image.sdiff_eq_left] at hX
      exact ⟨hsort, hmem, A', hX ▸ hs⟩
    · omega
  · rw [if_pos ⟨rfl, hsize⟩] at hr
    obtain ⟨st, hst, hr⟩ := bind_eq_ok.mp hr
    cases hr
    obtain ⟨⟨A'', hs'⟩, hmem'⟩ := hs.addRam hb hpage hcur hst
    rw [hX] at hs'
    exact ⟨hsort, fun a ha => (hmem' a ha).trans (hmem a ha), A'', hs'⟩

theorem third_pass (he : e.Told m) (hsorted : est.sorted = true)
    (hm : ∀ a ∈ otherSpace (e.descs m), est.mem a = m a) (hk : Kept est.tables X A)
    (hr : efiPass b page e fuel 2 est = .ok est') :
    Kept est'.tables (X \ space (e.descs m) EFI_MEMORY_TYPE.inUse) A ∧
      est'.tables.temp_syspage = est.tables.temp_syspage := by
  obtain ⟨x, hx, hr⟩ := bind_eq_ok.mp hr
  rw [if_neg (by simp)] at hr
  cases hr
  rw [efi_walk_map_null, if_pos hsorted] at hx
  have hstart : Taken e m est.tables.temp_syspage X A 0 (noCur, ⟨est.tables, est.mem⟩) :=
    ⟨hm, rfl, by simpa [space] using hk⟩
  obtain ⟨⟨-, htemp, hk'⟩, -⟩ :=
    efiFor_all he.toLawful (Taken e m _ X A) (fun i hi x y hP hr => hP.visit he hi hr) hstart hx
  rw [take_ndescs] at hk'
  exact ⟨hk', htemp⟩

/-- **The tables say what the map says**, and the system page is in conventional memory: in whatever
order the descriptors are, the page cannot end up over the map, over the image, or over memory that
is in use. -/
theorem init_raminfo_efi_told (hb : b.Sane) (hpage : ∀ s, (page s).length ≤ TEMP_SYSPAGE_SIZE)
    (he : e.Told est.mem)
    (hs : Ready est.tables) (hr : init_raminfo_efi b page e fuel est = .ok est') :
    EfiTold b (e.descs est.mem) est'.tables := by
  obtain ⟨est₁, hr₁, hr⟩ := bind_eq_ok.mp hr
  obtain ⟨est₂, hr₂, hr₃⟩ := bind_eq_ok.mp hr
  obtain ⟨m, hm⟩ : ∃ m, m = if est.sorted then est.mem else efi_sort_map e est.mem := ⟨_, rfl⟩
  have hperm : (e.descs m).Perm (e.descs est.mem) := by
    rw [hm]
    split_ifs
    · exact .refl _
    · exact (efi_sort_map_spec he.toLawful est.mem).2
  have he := he.perm hperm
  obtain ⟨hsorted₁, hmem₁, htemp₁, A, hA, hk₁⟩ := first_pass he hm hs hr₁
  obtain ⟨hsorted₂, hmem₂, A', hs₂⟩ := second_pass hb hpage he hsorted₁ hmem₁ htemp₁ hA hk₁ hr₂
  obtain ⟨hk₃, htemp₃⟩ := third_pass he hsorted₂ hmem₂ hs₂.toKept hr₃
  obtain ⟨hram, havoid⟩ := hk₃.bytes
  have hfree : (space (e.descs m) EFI_MEMORY_TYPE.usable \ image b) \ space (e.descs m)
      EFI_MEMORY_TYPE.inUse = space (e.descs m) (· = EfiConventionalMemory) \ image b := by
    have husable : space (e.descs m) EFI_MEMORY_TYPE.usable =
        space (e.descs m) (· = EfiConventionalMemory) ∪ space (e.descs m) EFI_MEMORY_TYPE.inUse :=
      space_union _ _ _
    rw [Set.sdiff_sdiff_comm, husable, Set.union_sdiff_right,
      (he.disjoint.mono_right (space_inUse_subset _)).sdiff_eq_left]
  refine ⟨?_, ?_, fun hne => ?_⟩
  · rw [hram, hfree, space_perm hperm]
  · rw [havoid, ← otherSpace_perm hperm]
    exact hs₂.other
  · rw [htemp₃] at hne ⊢
    obtain ⟨hin, hA', hoff⟩ := hs₂.page hne
    rw [hram, havoid]
    exact Set.subset_inter (Set.subset_sdiff.mpr ⟨hin, hoff.mono_right (space_inUse_subset _)⟩) hA'

/-! ### A boot -/

/-- The map of a board with one page of RAM behind the image, last descriptor first. -/
def boardMap : List EFI_MEMORY_DESCRIPTOR :=
  [⟨2, 0x41000000, 1⟩, ⟨7, 0x40010000, 0x100⟩, ⟨6, 0x40000000, 0x10⟩, ⟨7, 0x1080000, 1⟩,
    ⟨1, 0x80000, 0x1000⟩]

def board : EfiMap := ⟨0x41000000, 200, 40⟩

def boardState : EfiState :=
  ⟨⟨earlyTables, write 0x41000000 (boardMap.flatMap descriptorBytes) fun _ => 0⟩, false⟩

theorem board_descs : board.descs boardState.mem = boardMap := by decide +kernel

theorem board_told : board.Told boardState.mem where
  size := by decide
  whole := by decide
  filled := by decide
  placed := by decide
  ends := by decide
  pages := by
    rw [board_descs]
    decide
  limit := by
    rw [board_descs]
    decide
  apart := by
    rw [board_descs]
    exact (lawful_of (by decide) (by decide)).apart
  buffer := by
    rw [board_descs]
    rintro x ⟨hlo, hhi⟩
    exact ⟨⟨2, 0x41000000, 1⟩, by decide, by decide, hlo, hhi.trans_le (by decide)⟩

/-- The page goes past the runtime services of the firmware. -/
theorem init_raminfo_efi_told_board :
    ∃ est, init_raminfo_efi bootInfo smallPage board 6 boardState = .ok est ∧
    est.tables.temp_syspage = 0x40010000 ∧ EfiTold bootInfo boardMap est.tables := by
  have hrun : (init_raminfo_efi bootInfo smallPage board 6 boardState).toOption.map
      (fun est => est.tables.temp_syspage) = some 0x40010000 := by decide +kernel
  obtain ⟨est, hest, htemp⟩ := Option.map_eq_some_iff.mp hrun
  have hest := toOption_eq_some.mp hest
  have htold := init_raminfo_efi_told bootInfo_sane smallPage_length board_told
    earlyTables_ready hest
  exact ⟨est, hest, htemp, board_descs ▸ htold⟩

end Startup.Uefi
