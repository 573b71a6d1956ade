import RpiBsp.Startup.Ram.Apart
import RpiBsp.Startup.Ram.Range
import RpiBsp.Startup.Uefi.Definitions

/-!
# Startup — UEFI — RAM and the system page

`add_ram` adds RAM, takes the image out of it, and, as long as the system page has no place,
searches for one.

* `add_ram_eq` — its two halves;
* `PageOff` — when the page ends up off some addresses, said of the RAM that is added and of what is
to be avoided;
* `addRam_cases` — what one `add_ram` does to the tables and to memory;
* `Sound.addRam` — a page that is to end up off some addresses is put off them, and their bytes
stay.
-/

namespace Startup.Uefi

open Support

/-- The part of the image behind the startup program, which `add_ram` takes out. -/
def image (b : BootInfo) : Set ℕ :=
  Set.Ico (b.full_ram_paddr + b.startup_size) (b.full_ram_paddr + b.ram_size)

/-- The memory of a system page. -/
def pageAt (p : ℕ) : Set ℕ := Set.Ico p (p + TEMP_SYSPAGE_SIZE)

/-- The first half of `add_ram`, up to the search for a place for the system page. -/
def added (b : BootInfo) (start size : ℕ) (s : RamState) : Except Crash RamState := do
  let asinfo ← initAsinfo b s.asinfo
  let r ← as_add_containing start (subW 64 (addW 64 start size) 1) AS_ATTR_RAM "ram" "memory" asinfo
  if ¬ s.inited then .error .outside
  else do
    let ram ← add_mem start size s.ram
    let r ← alloc_ram (addW 64 b.full_ram_paddr b.startup_size)
      (subW 32 b.ram_size b.startup_size) 1 { s with asinfo := r.2, ram := ram }
    return r.2

/-- The second half of `add_ram`. -/
def placePage (b : BootInfo) (s : RamState) : Except Crash RamState :=
  if s.temp_syspage = NULL_PADDR then do
    let temp_syspage ← find_ram s TEMP_SYSPAGE_SIZE PAGESIZE 0 0
    if temp_syspage ≠ NULL_PADDR then
      avoid_ram b temp_syspage TEMP_SYSPAGE_SIZE { s with temp_syspage := temp_syspage }
    else return { s with temp_syspage := temp_syspage }
  else return s

theorem add_ram_eq (b : BootInfo) (start size : ℕ) (s : RamState) :
    add_ram b start size s = added b start size s >>= placePage b := by
  rw [add_ram, added, bind_assoc]
  refine bind_congr fun asinfo => ?_
  rw [bind_assoc]
  refine bind_congr fun r => ?_
  dsimp only
  by_cases hi : s.inited = true
  · rw [if_neg (not_not.mpr hi), if_neg (not_not.mpr hi), bind_assoc]
    refine bind_congr fun ram => ?_
    rw [bind_assoc]
    rfl
  · rw [if_pos hi, if_pos hi]
    rfl

/-! ### The tables, call by call -/

/-- What the tables stand for. -/
structure Kept (s : RamState) (X A : Set ℕ) : Prop where
  inited : s.inited = true
  sysram : s.sysram_added = false
  ram : ∃ l, s.ram.Rep l ∧ cover l = X
  avoid : ∃ al, s.avoid.Rep al ∧ cover al = A

variable {b : BootInfo} {s s' : RamState} {X A : Set ℕ} {start size : ℕ}

theorem Kept.bytes (h : Kept s X A) : s.ram.bytes = X ∧ s.avoid.bytes = A := by
  obtain ⟨l, hl, hX⟩ := h.ram
  obtain ⟨al, hal, hA⟩ := h.avoid
  exact ⟨hl.bytes.trans hX, hal.bytes.trans hA⟩

/-- RAM at an address that is known is taken out. -/
theorem Kept.alloc (h : Kept s X A) (hw : start + size < 2 ^ 64) {align : ℕ} {r : ℕ × RamState}
    (hne : start ≠ NULL_PADDR) (hr : alloc_ram start size align s = .ok r) :
    Kept r.2 (X \ Set.Ico start (start + size)) A ∧ r.2.temp_syspage = s.temp_syspage := by
  obtain ⟨l, hl, rfl⟩ := h.ram
  rw [alloc_ram, if_neg (by simp [h.inited]), if_neg hne] at hr
  obtain ⟨s₁, hs₁, hr⟩ := bind_eq_ok.mp hr
  cases hr
  obtain ⟨t, rfl, ht⟩ := allocAt_spec hl h.sysram hw hs₁
  exact ⟨⟨h.inited, h.sysram, ⟨_, ht, cover_cutAll _ _ _⟩, h.avoid⟩, rfl⟩

/-- The image is taken out. -/
theorem Kept.image_out (hb : b.Sane) (h : Kept s X A) {r : ℕ × RamState}
    (hr : alloc_ram (addW 64 b.full_ram_paddr b.startup_size)
      (subW 32 b.ram_size b.startup_size) 1 s = .ok r) :
    Kept r.2 (X \ image b) A ∧ r.2.temp_syspage = s.temp_syspage := by
  obtain ⟨hst, himg, hsz, habove⟩ := hb
  simp only [PAGESIZE] at habove
  have hlt : b.full_ram_paddr + b.startup_size < NULL_PADDR := by
    simp only [NULL_PADDR]
    omega
  have hend : b.full_ram_paddr + b.startup_size + (b.ram_size - b.startup_size) =
      b.full_ram_paddr + b.ram_size := by
    omega
  rw [addW_of_lt (hlt.trans (by decide)), subW_of_le himg hsz] at hr
  have hk := h.alloc (by omega) hlt.ne hr
  rwa [hend] at hk

/-- What is avoided grows by the range. -/
theorem Kept.avoid_ram (h : Kept s X A) (hw : start + size < 2 ^ 64) (hne : start + size ≠ 0)
    (hs : Startup.avoid_ram b start size s = .ok s') :
    Kept s' X (A ∪ Set.Ico start (start + size)) ∧ s'.temp_syspage = s.temp_syspage := by
  obtain ⟨al, hal, rfl⟩ := h.avoid
  rw [Startup.avoid_ram, ensureInit, if_pos h.inited, ok_bind] at hs
  obtain ⟨t, ht, hs⟩ := bind_eq_ok.mp hs
  cases hs
  obtain ⟨al', hal', hcov⟩ := avoidAdd_spec hal hw hne ht
  exact ⟨⟨h.inited, h.sysram, h.ram, al', hal', hcov⟩, rfl⟩

/-- RAM is added, less the image. -/
theorem Kept.added (hb : b.Sane) (h : Kept s X A) (hsize : 0 < size) (hw : start + size < 2 ^ 64)
    (hs : added b start size s = .ok s') :
    Kept s' ((X ∪ Set.Ico start (start + size)) \ image b) A ∧
    s'.temp_syspage = s.temp_syspage := by
  obtain ⟨l, hl, rfl⟩ := h.ram
  obtain ⟨asinfo, -, hs⟩ := bind_eq_ok.mp hs
  obtain ⟨r, -, hs⟩ := bind_eq_ok.mp hs
  rw [if_neg (not_not.mpr h.inited)] at hs
  obtain ⟨t, ht, hs⟩ := bind_eq_ok.mp hs
  obtain ⟨r', hr', hs⟩ := bind_eq_ok.mp hs
  cases hs
  have ht' : t.Rep (unite ⟨start, start + size⟩ l) := by
    rcases add_mem_spec hl hsize hw with ⟨-, he⟩ | ⟨t', he, hR⟩
    · rw [he] at ht
      cases ht
    · rw [he] at ht
      cases ht
      exact hR
  have hcov : cover (unite ⟨start, start + size⟩ l) = cover l ∪ Set.Ico start (start + size) := by
    rw [cover_unite (Nat.lt_add_of_pos_right hsize) hl.normal, Set.union_comm]
    rfl
  have hk : Kept { s with asinfo := r.2, ram := t } (cover l ∪ Set.Ico start (start + size)) A :=
    ⟨h.inited, h.sysram, ⟨_, ht', hcov⟩, h.avoid⟩
  exact hk.image_out hb hr'

/-- A page that was placed stays where it is. -/
theorem placePage_placed (h : s.temp_syspage ≠ NULL_PADDR) : placePage b s = .ok s := if_neg h

/-- There is no room yet, or the page goes where `find_ram` says, and is avoided there. -/
theorem placePage_eq (h : s.temp_syspage = NULL_PADDR) (hs : placePage b s = .ok s') :
    find_ram s TEMP_SYSPAGE_SIZE PAGESIZE 0 0 = .ok NULL_PADDR ∧ s' = s ∨
      ∃ a ≠ NULL_PADDR, find_ram s TEMP_SYSPAGE_SIZE PAGESIZE 0 0 = .ok a ∧
        Startup.avoid_ram b a TEMP_SYSPAGE_SIZE { s with temp_syspage := a } = .ok s' := by
  rw [placePage, if_pos h] at hs
  obtain ⟨a, ha, hs⟩ := bind_eq_ok.mp hs
  by_cases hnull : a = NULL_PADDR
  · rw [if_neg (not_not.mpr hnull)] at hs
    cases hs
    subst hnull
    refine .inl ⟨ha, ?_⟩
    rw [← h]
  · rw [if_pos hnull] at hs
    exact .inr ⟨a, hnull, ha, hs⟩

theorem Kept.placed (h : Kept s X A) {a : ℕ} (hnull : a ≠ NULL_PADDR)
    (ha : find_ram s TEMP_SYSPAGE_SIZE PAGESIZE 0 0 = .ok a)
    (hs : Startup.avoid_ram b a TEMP_SYSPAGE_SIZE { s with temp_syspage := a } = .ok s') :
    Kept s' X (A ∪ pageAt a) ∧ s'.temp_syspage = a := by
  obtain ⟨-, -, -, -, -, hlt, -⟩ := find_ram_place (k := 12) (by decide) ha hnull
  have hk : Kept { s with temp_syspage := a } X A := ⟨h.inited, h.sysram, h.ram, h.avoid⟩
  exact hk.avoid_ram hlt (by simp [TEMP_SYSPAGE_SIZE]) hs

theorem allocAt_avoid (h : allocAt start size s = .ok s') : s'.avoid = s.avoid := by
  obtain ⟨t, -, h⟩ := bind_eq_ok.mp h
  dsimp only at h
  split_ifs at h
  · obtain ⟨asinfo, -, h⟩ := bind_eq_ok.mp h
    cases h
    rfl
  · cases h
    rfl

theorem alloc_ram_avoid {align : ℕ} {r : ℕ × RamState} (h : alloc_ram start size align s = .ok r) :
    r.2.avoid = s.avoid := by
  rw [alloc_ram] at h
  split_ifs at h with hi hnull
  · obtain ⟨addr, -, h⟩ := bind_eq_ok.mp h
    split_ifs at h
    · cases h
      rfl
    · obtain ⟨s₁, hs₁, h⟩ := bind_eq_ok.mp h
      cases h
      exact allocAt_avoid hs₁
  · obtain ⟨s₁, hs₁, h⟩ := bind_eq_ok.mp h
    cases h
    exact allocAt_avoid hs₁

/-- RAM is added, and nothing is avoided. -/
theorem added_avoid (h : added b start size s = .ok s') : s'.avoid = s.avoid := by
  obtain ⟨asinfo, -, h⟩ := bind_eq_ok.mp h
  obtain ⟨r, -, h⟩ := bind_eq_ok.mp h
  split_ifs at h
  obtain ⟨t, -, h⟩ := bind_eq_ok.mp h
  obtain ⟨r', hr', h⟩ := bind_eq_ok.mp h
  cases h
  exact (alloc_ram_avoid hr').trans rfl

/-! ### Where a page can end up -/

/-- Where a search for a place can start in the RAM `X`: where it begins, or where a range to avoid
ends. -/
def Begins (X : Set ℕ) (al : List (Span ℕ)) (lo : ℕ) : Prop :=
  lo ∈ X ∧ ((∀ x ∈ X, x + 1 ≠ lo) ∨ ∃ u ∈ al, u.hi = lo)

/-- A page from there on, at the next 4 KiB, is off the addresses `B` if it is in RAM and not to be
avoided. -/
structure OffFrom (X : Set ℕ) (al : List (Span ℕ)) (B : Set ℕ) (lo : ℕ) : Prop where
  last : lo + (PAGESIZE - 1) < 2 ^ 64
  off : pageAt (round 64 lo PAGESIZE) ⊆ X \ cover al → Disjoint (pageAt (round 64 lo PAGESIZE)) B

/-- **When the page ends up off the addresses `B`**, while RAM is added run by run to the RAM `X`
and what is in `al` is avoided: from wherever a search can start in the RAM so far, a page is off
them; and this goes for the runs up to one that has room for a page, however the ranges to avoid cut
it. -/
def PageOff (b : BootInfo) (al : List (Span ℕ)) (B : Set ℕ) : List (ℕ × ℕ) → Set ℕ → Prop
  | [], _ => True
  | r :: rs, X =>
      let X := (X ∪ Set.Ico r.1 (r.1 + r.2)) \ image b
      (∀ lo, Begins X al lo → OffFrom X al B lo) ∧
        ((∃ x, Set.Ico x (x + roomNeeded (TEMP_SYSPAGE_SIZE + (PAGESIZE - 1)) al) ⊆ X) ∨
        PageOff b al B rs X)

variable {page : RamState → List UInt8} {st st' : State} {rs : List (ℕ × ℕ)} {p : ℕ}
    {mem : ℕ → UInt8} {B : Set ℕ}
  {l al : List (Span ℕ)}

/-- A member of a normal list begins what the list covers. -/
theorem normal_begins (hl : Normal l) {u : Span ℕ} (hu : u ∈ l) : ∀ x ∈ cover l, x + 1 ≠ u.lo := by
  rintro x ⟨v, hv, hlo, hhi⟩ hx
  obtain ⟨i, hi, rfl⟩ := List.mem_iff_getElem.mp hu
  obtain ⟨j, hj, rfl⟩ := List.mem_iff_getElem.mp hv
  have hproper := hl.proper _ hu
  have hproper' := hl.proper _ hv
  rcases Nat.lt_trichotomy i j with hij | rfl | hij
  · have := List.pairwise_iff_getElem.mp hl.gaps i j hi hj hij
    omega
  · omega
  · have := List.pairwise_iff_getElem.mp hl.gaps j i hj hi hij
    omega

theorem starts_begins {r lo : ℕ} (hl : s.ram.Rep l) (hal : s.avoid.Rep al) (hr : s.ram.Listed r)
    (h : Starts s r lo) :
    Begins (cover l) al lo := by
  refine ⟨hl.bytes ▸ starts_mem ⟨l, hl⟩ hr h, ?_⟩
  rcases h with rfl | ⟨a, ha, hend, -⟩
  · have hlt := hl.listed_iff.mp hr
    rw [(hl.slot_bounds hlt).1]
    exact .inl (normal_begins hl.normal (List.getElem_mem hlt))
  · have hlt := hal.listed_iff.mp ha
    rw [hal.slot_eq hlt] at hend
    exact .inr ⟨_, List.getElem_mem hlt, hend⟩

/-- A search ends up at the next 4 KiB from where it started, in RAM and off what is to be
avoided. -/
theorem find_ram_begins (hl : s.ram.Rep l) (hal : s.avoid.Rep al) (hnull : p ≠ NULL_PADDR)
    (h : find_ram s TEMP_SYSPAGE_SIZE PAGESIZE 0 0 = .ok p) :
    ∃ lo, Begins (cover l) al lo ∧ p = round 64 lo PAGESIZE ∧
      (lo + (PAGESIZE - 1) < 2 ^ 64 → pageAt p ⊆ cover l \ cover al) := by
  obtain ⟨r, lo, hr, hstarts, haddr, -, hclear, -⟩ := find_ram_place (k := 12) (by decide) h hnull
  refine ⟨lo, starts_begins hl hal hr hstarts, haddr, fun hlast => ?_⟩
  obtain ⟨hin, hoff⟩ := (clear_iff ⟨l, hl⟩ (by decide)).mp (hclear hlast)
  rw [hl.bytes] at hin
  refine fun x hx => ⟨hin hx, fun hx' => ?_⟩
  rw [← hal.bytes] at hx'
  obtain ⟨a, ha, hlo, hhi⟩ := hx'
  exact Set.disjoint_left.mp (hoff a ha) hx ⟨hlo, hhi⟩

/-! ### RAM, run by run -/

theorem call_eq_ok {α : Type} {x : Except Crash α} {y : α} : call x = .ok y ↔ x = .ok y := by
  cases x <;> simp [call, Except.mapError]

/-- `add_ram`, and the page is written where it was placed. -/
theorem addRam_parts (h : addRam b page start size st = .ok st') :
    ∃ s₁, added b start size st.tables = .ok s₁ ∧
    placePage b s₁ = .ok st'.tables ∧ st'.mem = if st'.tables.temp_syspage = NULL_PADDR then st.mem
      else write st'.tables.temp_syspage (page st'.tables) st.mem := by
  obtain ⟨s', hs', h⟩ := bind_eq_ok.mp h
  rw [call_eq_ok, add_ram_eq] at hs'
  obtain ⟨s₁, hs₁, hs'⟩ := bind_eq_ok.mp hs'
  cases h
  exact ⟨s₁, hs₁, hs', rfl⟩

/-- What one `add_ram` does: the page was placed before, or it is not placed, or it is placed
now. -/
theorem addRam_cases (hb : b.Sane) (h : Kept st.tables X A) (hsize : 0 < size)
    (hw : start + size < 2 ^ 64) (hr : addRam b page start size st = .ok st') :
    (st.tables.temp_syspage ≠ NULL_PADDR ∧ st'.tables.temp_syspage = st.tables.temp_syspage ∧
        Kept st'.tables ((X ∪ Set.Ico start (start + size)) \ image b) A ∧
        st'.mem = write st'.tables.temp_syspage (page st'.tables) st.mem) ∨
      st.tables.temp_syspage = NULL_PADDR ∧ ∃ s₁, s₁.avoid = st.tables.avoid ∧
        Kept s₁ ((X ∪ Set.Ico start (start + size)) \ image b) A ∧
        find_ram s₁ TEMP_SYSPAGE_SIZE PAGESIZE 0 0 = .ok st'.tables.temp_syspage ∧
        ((st'.tables.temp_syspage = NULL_PADDR ∧ st'.tables = s₁ ∧ st'.mem = st.mem) ∨
          (st'.tables.temp_syspage ≠ NULL_PADDR ∧
            Kept st'.tables ((X ∪ Set.Ico start (start + size)) \ image b)
              (A ∪ pageAt st'.tables.temp_syspage) ∧
            st'.mem = write st'.tables.temp_syspage (page st'.tables) st.mem)) := by
  obtain ⟨s₁, hs₁, hplace, hmem⟩ := addRam_parts hr
  obtain ⟨hk, htemp⟩ := h.added hb hsize hw hs₁
  by_cases hnull : st.tables.temp_syspage = NULL_PADDR
  · refine .inr ⟨hnull, s₁, added_avoid hs₁, hk, ?_⟩
    rcases placePage_eq (htemp.trans hnull) hplace with ⟨hfind, heq⟩ | ⟨p, hp, hfind, havoid⟩
    · have hnull' : st'.tables.temp_syspage = NULL_PADDR := by rw [heq, htemp, hnull]
      rw [if_pos hnull'] at hmem
      exact ⟨hnull'.symm ▸ hfind, .inl ⟨hnull', heq, hmem⟩⟩
    · obtain ⟨hk', htemp'⟩ := hk.placed hp hfind havoid
      rw [← htemp'] at hp hk' hfind
      rw [if_neg hp] at hmem
      exact ⟨hfind, .inr ⟨hp, hk', hmem⟩⟩
  · rw [placePage_placed (htemp ▸ hnull)] at hplace
    have heq := Except.ok.inj hplace
    rw [heq] at hk htemp
    rw [if_neg (htemp ▸ hnull)] at hmem
    exact .inl ⟨hnull, htemp, hk, hmem⟩

/-- The page is off the addresses `B`, or it will be, as the rest of the RAM is added. -/
structure Sound (b : BootInfo) (B : Set ℕ) (rs : List (ℕ × ℕ)) (s : RamState) (X A : Set ℕ) : Prop
    extends Kept s X A where
  page : s.temp_syspage ≠ NULL_PADDR → pageAt s.temp_syspage ⊆ A ∧
    Disjoint (pageAt s.temp_syspage) B
  search : s.temp_syspage = NULL_PADDR → ∃ al, s.avoid.Rep al ∧ PageOff b al B rs X

/-- Writing the page leaves what is apart from it. -/
theorem write_off {l : List UInt8} (hl : l.length ≤ TEMP_SYSPAGE_SIZE)
    (hB : Disjoint (pageAt p) B) :
    ∀ x ∈ B, write p l mem x = mem x := by
  intro x hx
  refine write_outside ?_
  by_contra hin
  exact Set.disjoint_left.mp hB ⟨by omega, by omega⟩ hx

theorem Sound.addRam (hb : b.Sane) (hpage : ∀ s, (page s).length ≤ TEMP_SYSPAGE_SIZE)
    (h : Sound b B ((start, size) :: rs) st.tables X A) (hsize : 0 < size)
    (hw : start + size < 2 ^ 64)
    (hr : addRam b page start size st = .ok st') :
    (∃ A', A ⊆ A' ∧ Sound b B rs st'.tables ((X ∪ Set.Ico start (start + size)) \ image b) A') ∧
      ∀ x ∈ B, st'.mem x = st.mem x := by
  rcases addRam_cases hb h.toKept hsize hw hr with
    ⟨hnull, heq, hk, hmem⟩ |
      ⟨hnull, s₁, havoid, hk₁, hfind, ⟨hnull', heq, hmem⟩ | ⟨hnull', hk, hmem⟩⟩
  · -- it is where it was
    obtain ⟨hsub, hoff⟩ := h.page hnull
    rw [← heq] at hsub hoff hnull
    exact ⟨⟨A, subset_rfl, hk, fun _ => ⟨hsub, hoff⟩, fun hn => absurd hn hnull⟩,
      hmem ▸ write_off (hpage _) hoff⟩
  · -- no place yet, so the RAM so far cannot have had the room
    obtain ⟨al, hal, -, hrest⟩ := h.search hnull
    obtain ⟨l, hl, hX⟩ := hk₁.ram
    rw [← havoid, ← heq] at hal
    rw [← heq] at hk₁ hl hfind
    refine ⟨⟨A, subset_rfl, hk₁, fun hn => absurd hnull' hn, fun _ =>
      ⟨al, hal, hrest.resolve_left ?_⟩⟩, fun x _ => hmem ▸ rfl⟩
    rintro ⟨x, hx⟩
    rw [hnull'] at hfind
    exact find_ram_room hl hal (by decide) (by decide) (by decide) (hX.symm ▸ hx) hfind
  · -- the page gets its place
    obtain ⟨al, hal, hfirst, -⟩ := h.search hnull
    obtain ⟨l, hl, hX⟩ := hk₁.ram
    rw [← havoid] at hal
    obtain ⟨lo, hbegins, hp, hin⟩ := find_ram_begins hl hal hnull' hfind
    rw [hX] at hbegins hin
    obtain ⟨hlast, hoff⟩ := hfirst lo hbegins
    have hoff := hp ▸ hoff (hp ▸ hin hlast)
    exact ⟨⟨_, Set.subset_union_left, hk, fun _ => ⟨Set.subset_union_right, hoff⟩, fun hn =>
      absurd hn hnull'⟩, hmem ▸ write_off (hpage _) hoff⟩

end Startup.Uefi
