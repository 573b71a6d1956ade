import RpiBsp.Startup.Uefi.Definitions
import RpiBsp.Support.Chain
import Mathlib.Data.List.Pairwise
import Mathlib.Data.Set.Lattice

/-!
# Startup — UEFI — the map

The descriptors as what the firmware says of its memory, and as bytes in a buffer that the code
writes links into.

* `Lawful` — what a map promises;
* `Intact`, `Intact.store`, `Intact.link` — the links leave the map as it is;
* `Thread.snoc` — and lead over the descriptors that were put into the list.
-/

namespace Startup.Uefi

open Support EFI_MEMORY_TYPE

/-! ### What it says -/

/-- The descriptor's type is known and is one of these. -/
def EFI_MEMORY_DESCRIPTOR.Is (d : EFI_MEMORY_DESCRIPTOR) (p : EFI_MEMORY_TYPE → Bool) : Prop :=
  memoryTypes[d.Type_]?.any p = true

instance (d : EFI_MEMORY_DESCRIPTOR) (p : EFI_MEMORY_TYPE → Bool) : Decidable (d.Is p) :=
  inferInstanceAs (Decidable (_ = true))

/-- The addresses of a descriptor. -/
def EFI_MEMORY_DESCRIPTOR.range (d : EFI_MEMORY_DESCRIPTOR) : Set ℕ :=
  Set.Ico d.PhysicalStart (d.PhysicalStart + d.NumberOfPages * 0x1000)

/-- The addresses of the descriptors of some types. -/
def space (D : List EFI_MEMORY_DESCRIPTOR) (p : EFI_MEMORY_TYPE → Bool) : Set ℕ :=
  {x | ∃ d ∈ D, d.Is p ∧ x ∈ d.range}

/-- The types that are RAM to startup. -/
def EFI_MEMORY_TYPE.free (t : EFI_MEMORY_TYPE) : Bool := t = EfiConventionalMemory || t.later

/-- The types whose memory is added. -/
def EFI_MEMORY_TYPE.told (t : EFI_MEMORY_TYPE) : Bool := !t.ignored

/-- A map: known types, at least one page each, no address past the last one, none in two
descriptors. -/
structure Lawful (D : List EFI_MEMORY_DESCRIPTOR) : Prop where
  known : ∀ d ∈ D, d.Is fun _ => true
  pages : ∀ d ∈ D, 0 < d.NumberOfPages
  ends : ∀ d ∈ D, d.PhysicalStart + d.NumberOfPages * 0x1000 < 2 ^ 64
  apart : D.Pairwise fun d e => Disjoint d.range e.range

variable {d : EFI_MEMORY_DESCRIPTOR} {D : List EFI_MEMORY_DESCRIPTOR}

/-- A descriptor of a map that is in order. -/
structure InOrder (d : EFI_MEMORY_DESCRIPTOR) : Prop where
  known : d.Is fun _ => true
  pages : 0 < d.NumberOfPages
  ends : d.PhysicalStart + d.NumberOfPages * 0x1000 < 2 ^ 64

/-- The size of a descriptor in bytes does not wrap. -/
theorem InOrder.nbytes (h : InOrder d) : d.nbytes = d.NumberOfPages * 0x1000 :=
  Nat.mod_eq_of_lt ((Nat.le_add_left _ _).trans_lt h.ends)

/-- A property of types, at a type that is known. -/
theorem is_iff {t : EFI_MEMORY_TYPE} (h : memoryTypes[d.Type_]? = some t)
    (p : EFI_MEMORY_TYPE → Bool) :
    d.Is p ↔ p t := by
  rw [EFI_MEMORY_DESCRIPTOR.Is, h, Option.any_some]

theorem exists_type {q : EFI_MEMORY_TYPE → Bool} (h : d.Is q) :
    ∃ t, memoryTypes[d.Type_]? = some t ∧ q t := by
  cases ht : memoryTypes[d.Type_]? with
  | none =>
      rw [EFI_MEMORY_DESCRIPTOR.Is, ht] at h
      cases h
  | some t => exact ⟨t, rfl, (is_iff ht q).mp h⟩

/-- Every known type is told or ignored, and not both. -/
theorem not_ignored (hd : InOrder d) :
    d.Is EFI_MEMORY_TYPE.told ↔ ¬ d.Is EFI_MEMORY_TYPE.ignored := by
  obtain ⟨t, ht, -⟩ := exists_type hd.known
  simp [is_iff ht, EFI_MEMORY_TYPE.told]

theorem ignored_not_listed (hd : InOrder d) (h : d.Is EFI_MEMORY_TYPE.ignored) :
    ¬ d.Is EFI_MEMORY_TYPE.listed := by
  obtain ⟨t, ht, -⟩ := exists_type hd.known
  rw [is_iff ht] at h ⊢
  cases t <;>
    simp_all [EFI_MEMORY_TYPE.ignored, EFI_MEMORY_TYPE.listed, EFI_MEMORY_TYPE.unusable,
    EFI_MEMORY_TYPE.later]

/-- The addresses of a longer list. -/
theorem space_cons (d : EFI_MEMORY_DESCRIPTOR) (D : List EFI_MEMORY_DESCRIPTOR)
    (q : EFI_MEMORY_TYPE → Bool) :
    space (d :: D) q = (if d.Is q then d.range else ∅) ∪ space D q := by
  ext y
  by_cases hd : d.Is q <;> simp [space, hd]

theorem space_mono {q q' : EFI_MEMORY_TYPE → Bool} (h : ∀ t, q t → q' t) :
    space D q ⊆ space D q' := by
  rintro x ⟨d, hd, hq, hx⟩
  obtain ⟨t, ht, hqt⟩ := exists_type hq
  exact ⟨d, hd, (is_iff ht q').mpr (h t hqt), hx⟩

/-- Types that exclude each other have no address in common. -/
theorem Lawful.disjoint (h : Lawful D) {q q' : EFI_MEMORY_TYPE → Bool} (hq : ∀ t, q t → ¬ q' t) :
    Disjoint (space D q) (space D q') := by
  refine Set.disjoint_left.mpr ?_
  rintro x ⟨d, hd, hdq, hx⟩ ⟨e, he, heq, hx'⟩
  have hne : d ≠ e := by
    rintro rfl
    obtain ⟨t, ht, hqt⟩ := exists_type hdq
    exact hq t hqt ((is_iff ht q').mp heq)
  have : Std.Symm fun d e : EFI_MEMORY_DESCRIPTOR => Disjoint d.range e.range :=
    ⟨fun _ _ hde => hde.symm⟩
  exact Set.disjoint_left.mp (h.apart.forall hd he hne) hx hx'

theorem space_union (D : List EFI_MEMORY_DESCRIPTOR) (q q' : EFI_MEMORY_TYPE → Bool) :
    space D (fun t => q t || q' t) = space D q ∪ space D q' := by
  refine subset_antisymm ?_
    (Set.union_subset (space_mono fun t ht => by simp [ht]) (space_mono fun t ht => by simp [ht]))
  rintro x ⟨d, hd, hq, hx⟩
  obtain ⟨t, ht, hqt⟩ := exists_type hq
  rcases Bool.or_eq_true_iff.mp hqt with hqt | hqt
  · exact .inl ⟨d, hd, (is_iff ht q).mpr hqt, hx⟩
  · exact .inr ⟨d, hd, (is_iff ht q').mpr hqt, hx⟩

/-- What is to be checked of a map: known types, sizes, and no overlap in the order of the list. -/
theorem lawful_of (hd : ∀ d ∈ D, d.Is (fun _ => true) ∧ 0 < d.NumberOfPages ∧
      d.PhysicalStart + d.NumberOfPages * 0x1000 < 2 ^ 64)
    (hapart : D.Pairwise fun d e => d.PhysicalStart + d.NumberOfPages * 0x1000 ≤ e.PhysicalStart ∨
      e.PhysicalStart + e.NumberOfPages * 0x1000 ≤ d.PhysicalStart) : Lawful D where
  known d h := (hd d h).1
  pages d h := (hd d h).2.1
  ends d h := (hd d h).2.2
  apart := hapart.imp fun {d e} hde => Set.disjoint_left.mpr fun x hx hx' => by
    rcases hde with hde | hde
    · exact absurd (hx.2.trans_le hde) (Nat.not_lt.mpr hx'.1)
    · exact absurd (hx'.2.trans_le hde) (Nat.not_lt.mpr hx.1)

/-! ### The buffer -/

/-- The address of a descriptor. -/
def Answer.at_ (a : Answer) (i : ℕ) : ℕ := a.desc + i * a.desc_size

/-- The map that the firmware returned. -/
def Answer.map (a : Answer) : List EFI_MEMORY_DESCRIPTOR :=
  (List.range a.count).map fun i => descriptor (a.at_ i) a.mem

/-- The firmware keeps to its word: the map is one, and the buffer is loader data. -/
structure Answer.Lawful (a : Answer) : Prop where
  map : Uefi.Lawful a.map
  size : DESCRIPTOR_SIZE ≤ a.desc_size
  buffer : Set.Ico a.desc (a.at_ a.count) ⊆ space a.map (· = EfiLoaderData)

variable {a : Answer} {mem mem' : ℕ → UInt8} {i j : ℕ}

theorem at_succ (a : Answer) (i : ℕ) : a.at_ (i + 1) = a.at_ i + a.desc_size := by
  rw [Answer.at_, Answer.at_, Nat.succ_mul, ← Nat.add_assoc]

theorem at_mono (a : Answer) (h : i ≤ j) : a.at_ i ≤ a.at_ j :=
  Nat.add_le_add_left (Nat.mul_le_mul_right _ h) _

/-- Descriptors do not overlap in the buffer. -/
theorem at_apart (hsize : DESCRIPTOR_SIZE ≤ a.desc_size) (h : i < j) :
    a.at_ i + DESCRIPTOR_SIZE ≤ a.at_ j :=
  calc a.at_ i + DESCRIPTOR_SIZE ≤ a.at_ (i + 1) := at_succ a i ▸ Nat.add_le_add_left hsize _
    _ ≤ a.at_ j := at_mono a h

/-- The buffer of the map. -/
def Answer.buffer (a : Answer) : Set ℕ := Set.Ico a.desc (a.at_ a.count)

/-- They are inside it. -/
theorem mem_buffer (hsize : DESCRIPTOR_SIZE ≤ a.desc_size) (hi : i < a.count) {k : ℕ}
    (hk : k < DESCRIPTOR_SIZE) :
    a.at_ i + k ∈ a.buffer :=
  ⟨(Nat.le_add_right _ _).trans (Nat.le_add_right _ _), by
    have := at_apart hsize hi
    omega⟩

/-- The map from some descriptor on. -/
theorem drop_map (a : Answer) (hi : i < a.count) :
    a.map.drop i = descriptor (a.at_ i) a.mem :: a.map.drop (i + 1) := by
  rw [List.drop_eq_getElem_cons (by simpa [Answer.map] using hi)]
  simp [Answer.map]

theorem Answer.Lawful.inOrder (ha : a.Lawful) (hi : i < a.count) :
    InOrder (descriptor (a.at_ i) a.mem) := by
  have hmem : descriptor (a.at_ i) a.mem ∈ a.map := List.mem_map.mpr ⟨i, List.mem_range.mpr hi, rfl⟩
  exact ⟨ha.map.known _ hmem, ha.map.pages _ hmem, ha.map.ends _ hmem⟩

/-- The buffer is in memory. -/
theorem Answer.Lawful.at_lt (ha : a.Lawful) (hi : i < a.count) : a.at_ i < 2 ^ 64 := by
  have hin := mem_buffer ha.size hi (show 0 < DESCRIPTOR_SIZE by decide)
  rw [Nat.add_zero] at hin
  obtain ⟨d, hd, -, -, hlt⟩ := ha.buffer hin
  exact hlt.trans (ha.map.ends d hd)

/-- A descriptor is read from its bytes, without those of `VirtualStart`. -/
theorem descriptor_congr {p : ℕ}
    (h : ∀ k < DESCRIPTOR_SIZE, k < 16 ∨ 24 ≤ k → mem' (p + k) = mem (p + k)) :
    descriptor p mem' = descriptor p mem := by
  have hload {w k : ℕ} (hk : k + w ≤ DESCRIPTOR_SIZE) (hoff : k + w ≤ 16 ∨ 24 ≤ k) :
      load w (p + k) mem' = load w (p + k) mem :=
    load_eq fun j hj => by
      rw [Nat.add_assoc]
      exact h (k + j) (by omega) (by omega)
  have htype := @hload 4 0 (by decide) (by decide)
  have hstart := @hload 8 8 (by decide) (by decide)
  have hpages := @hload 8 24 (by decide) (by decide)
  rw [Nat.add_zero] at htype
  rw [descriptor, descriptor, htype, hstart, hpages]

/-- The map is as the firmware left it, but for the links. -/
def Intact (a : Answer) (mem : ℕ → UInt8) : Prop :=
  ∀ i < a.count, descriptor (a.at_ i) mem = descriptor (a.at_ i) a.mem

/-- Threading the list through the descriptors leaves the map intact. -/
theorem Intact.store (hsize : DESCRIPTOR_SIZE ≤ a.desc_size) (h : Intact a mem) (j v : ℕ) :
    Intact a (store 8 (VirtualStart (a.at_ j)) v mem) := by
  intro i hi
  rw [← h i hi]
  refine descriptor_congr fun k hk hoff => store_outside ?_
  rw [VirtualStart]
  simp only [DESCRIPTOR_SIZE] at hk
  rcases lt_trichotomy i j with hij | rfl | hij
  · have := at_apart hsize hij
    simp only [DESCRIPTOR_SIZE] at this
    omega
  · omega
  · have := at_apart hsize hij
    simp only [DESCRIPTOR_SIZE] at this
    omega

theorem Intact.congr (hsize : DESCRIPTOR_SIZE ≤ a.desc_size) (h : Intact a mem)
    (hmem : ∀ x ∈ a.buffer, mem' x = mem x) : Intact a mem' := by
  intro i hi
  rw [← h i hi]
  exact descriptor_congr fun k hk _ => hmem _ (mem_buffer hsize hi hk)

/-- The link in a descriptor. -/
def next (mem : ℕ → UInt8) (p : ℕ) : ℕ := load 8 (VirtualStart p) mem

theorem next_congr (hsize : DESCRIPTOR_SIZE ≤ a.desc_size) (hi : i < a.count)
    (hmem : ∀ x ∈ a.buffer, mem' x = mem x) :
    next mem' (a.at_ i) = next mem (a.at_ i) :=
  load_eq fun k hk => by
    rw [VirtualStart, Nat.add_assoc]
    exact hmem _ (mem_buffer hsize hi (by simp only [DESCRIPTOR_SIZE]; omega))

/-- A link is written to its own descriptor. -/
theorem next_store_of_ne (hsize : DESCRIPTOR_SIZE ≤ a.desc_size) (hij : i ≠ j) (v : ℕ) :
    next (store 8 (VirtualStart (a.at_ j)) v mem) (a.at_ i) = next mem (a.at_ i) := by
  refine load_store_apart ?_
  rw [VirtualStart, VirtualStart]
  rcases Nat.lt_or_gt_of_ne hij with hij | hij
  · have := at_apart hsize hij
    simp only [DESCRIPTOR_SIZE] at this
    omega
  · have := at_apart hsize hij
    simp only [DESCRIPTOR_SIZE] at this
    omega

theorem next_store (p : ℕ) {v : ℕ} (hv : v < 2 ^ 64) :
    next (store 8 (VirtualStart p) v mem) p = v := by
  rw [next, load_store]
  exact Nat.mod_eq_of_lt hv

/-- The list leads over the descriptors `L`, and `owner` is its end. -/
structure Thread (a : Answer) (mem : ℕ → UInt8) (w : Walk) (L : List ℕ) : Prop where
  links : Links (next mem) 0 w.avoid_list (L.map a.at_)
  owner : w.owner = L.getLast?.map fun i => VirtualStart (a.at_ i)
  below : ∀ j ∈ L, j < a.count
  sorted : L.Pairwise (· < ·)

theorem Thread.congr {w w' : Walk} {L : List ℕ} (hsize : DESCRIPTOR_SIZE ≤ a.desc_size)
    (h : Thread a mem w L)
    (hmem : ∀ x ∈ a.buffer, mem' x = mem x) (hhead : w'.avoid_list = w.avoid_list)
    (howner : w'.owner = w.owner) :
    Thread a mem' w' L where
  links := by
    rw [hhead]
    refine h.links.congr fun p hp => ?_
    obtain ⟨j, hj, rfl⟩ := List.mem_map.mp hp
    exact next_congr hsize (h.below j hj) hmem
  owner := howner.trans h.owner
  below := h.below
  sorted := h.sorted

theorem link_none {w : Walk} {st : State} (h : w.owner = none) (p : ℕ) : link p (w, st) =
    ({ w with avoid_list := p, owner := some (VirtualStart p) },
    ⟨st.tables, store 8 (VirtualStart p) 0 st.mem⟩) := by
  simp only [link, h]

theorem link_some {w : Walk} {st : State} {field : ℕ} (h : w.owner = some field) (p : ℕ) :
    link p (w, st) = ({ w with owner := some (VirtualStart p) },
      ⟨st.tables, store 8 (VirtualStart p) 0 (store 8 field p st.mem)⟩) := by
  simp only [link, h]

/-- The range that is being gathered is not touched. -/
theorem link_keeps (p : ℕ) (w : Walk) (st : State) :
    (link p (w, st)).1.starting_paddr = w.starting_paddr ∧
    (link p (w, st)).1.ending_paddr = w.ending_paddr := by
  cases h : w.owner with
  | none =>
      rw [link_none h]
      exact ⟨rfl, rfl⟩
  | some field =>
      rw [link_some h]
      exact ⟨rfl, rfl⟩

/-- One more descriptor at the end of the list. -/
theorem Thread.snoc {w : Walk} {st : State} {L : List ℕ} (hsize : DESCRIPTOR_SIZE ≤ a.desc_size)
    (h : Thread a st.mem w L) (hi : i < a.count) (hL : ∀ j ∈ L, j < i) (hpos : 0 < a.at_ i)
    (hlt : a.at_ i < 2 ^ 64) :
    Thread a (link (a.at_ i) (w, st)).2.mem (link (a.at_ i) (w, st)).1 (L ++ [i]) where
  links := by
    rcases List.eq_nil_or_concat L with rfl | ⟨L', z, rfl⟩
    · have howner : w.owner = none := h.owner
      rw [link_none howner]
      exact ⟨rfl, hpos.ne', next_store _ (by decide)⟩
    · have howner : w.owner = some (VirtualStart (a.at_ z)) := by simpa using h.owner
      have hzi : z ≠ i := (hL z (by simp)).ne
      rw [link_some howner]
      have hlinks := h.links
      rw [List.concat_eq_append, List.map_append, List.map_singleton] at hlinks ⊢
      rw [List.map_append, List.map_singleton]
      refine hlinks.snoc (fun p hp => ?_) ?_ hpos.ne' (next_store _ (by decide))
      · obtain ⟨j, hj, rfl⟩ := List.mem_map.mp hp
        have hji : j ≠ i := (hL j (by simp [hj])).ne
        have hjz : j ≠ z := by
          have hs := h.sorted
          rw [List.concat_eq_append] at hs
          exact ((List.pairwise_append.mp hs).2.2 j hj z (by simp)).ne
        rw [next_store_of_ne hsize hji, next_store_of_ne hsize hjz]
      · rw [next_store_of_ne hsize hzi, next_store _ hlt]
  owner := by simp [link]
  below := by
    intro j hj
    rcases List.mem_append.mp hj with hj | hj
    · exact h.below j hj
    · cases List.mem_singleton.mp hj
      exact hi
  sorted := by
    refine List.pairwise_append.mpr ⟨h.sorted, List.pairwise_singleton _ _, fun j hj k hk => ?_⟩
    cases List.mem_singleton.mp hk
    exact hL j hj

theorem Intact.link {w : Walk} {st : State} {L : List ℕ} (hsize : DESCRIPTOR_SIZE ≤ a.desc_size)
    (h : Intact a st.mem) (hw : Thread a st.mem w L) : Intact a (link (a.at_ i) (w, st)).2.mem := by
  have howner := hw.owner
  cases hlast : L.getLast? with
  | none =>
      rw [hlast, Option.map_none] at howner
      rw [link_none howner]
      exact h.store hsize i 0
  | some z =>
      rw [hlast, Option.map_some] at howner
      rw [link_some howner]
      exact (h.store hsize z _).store hsize i 0

end Startup.Uefi
