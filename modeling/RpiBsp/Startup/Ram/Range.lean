import RpiBsp.Startup.Ram.Search

/-!
# Startup — RAM — an address in a range

What `find_ram_in_range` promises for the address it returns, over any two tables.

* `Leaves.starts` — where a candidate can start: with an entry, or behind a range to avoid;
* `fits_le_coloured` — when the rounding stays in 64 bits and the colouring in 32, neither goes
  below the candidate;
* `find_ram_in_range_found` — the address is what was asked for if every such start is suited;
* `find_ram_room`, `find_ram_first` — RAM that is large enough is not passed over.

The colour is set with a mask of 32 bits, so the complement of the mask cuts off the upper half of
an address, and `range_start` replaces an address that was aligned and coloured with one that need
not be.
-/

namespace Startup

open Support

/-! ### Any tables -/

/-- The entries up to slot `r` are in the list: none of them is its end. -/
def RamList.Listed (t : RamList) (r : ℕ) : Prop := ∀ j ≤ r, (t.slots j).size ≠ 0

/-- The entries up to slot `a` are in the list: none of them is its end. -/
def AvoidList.Listed (t : AvoidList) (a : ℕ) : Prop := ∀ j ≤ a, (t.slots j).end_ ≠ 0

/-- The bytes to keep away from. -/
def AvoidList.bytes (t : AvoidList) : Set ℕ :=
  {b | ∃ a, t.Listed a ∧ (t.slots a).start ≤ b ∧ b < (t.slots a).end_}

theorem RamList.Rep.slot_eq {t : RamList} {l : List (Span ℕ)} (h : t.Rep l) {r : ℕ}
    (hr : r < l.length) :
    t.slots r = enc l[r] := by
  have hraw := h.raw
  rw [← List.take_append_drop r l, List.drop_eq_getElem_cons hr] at hraw
  exact hraw.slot (by rw [List.length_take, Nat.min_eq_left hr.le])

/-- The entries of the list are its members. -/
theorem RamList.Rep.listed_iff {t : RamList} {l : List (Span ℕ)} (h : t.Rep l) {r : ℕ} :
    t.Listed r ↔ r < l.length := by
  constructor
  · intro hr
    by_contra hge
    exact hr l.length (Nat.not_lt.mp hge) (h.raw.slot_end rfl)
  · intro hr i hi
    rw [h.slot_eq (by omega)]
    exact enc_size_ne (h.normal.proper _ (List.getElem_mem _))

/-- The addresses of an entry of the list. -/
theorem RamList.Rep.slot_bounds {t : RamList} {l : List (Span ℕ)} (h : t.Rep l) {r : ℕ}
    (hr : r < l.length) :
    (t.slots r).addr = l[r].lo ∧ (t.slots r).addr + (t.slots r).size = l[r].hi := by
  have hproper := h.normal.proper _ (List.getElem_mem hr)
  rw [h.slot_eq hr]
  exact ⟨rfl, Nat.add_sub_cancel' hproper.le⟩

theorem listed_lt {s : RamState} (hs : ∃ l, s.ram.Rep l) {r : ℕ} (hr : s.ram.Listed r) :
    (s.ram.slots r).addr + (s.ram.slots r).size < 2 ^ 64 := by
  obtain ⟨l, hl⟩ := hs
  have hlt := hl.listed_iff.mp hr
  rw [(hl.slot_bounds hlt).2]
  exact hl.bound _ (List.getElem_mem hlt)

theorem AvoidList.Rep.slot_eq {t : AvoidList} {l : List (Span ℕ)} (h : t.Rep l) {a : ℕ}
    (ha : a < l.length) :
    t.slots a = encAvoid l[a] := by
  obtain ⟨z, hz, hh⟩ := h.holds
  obtain ⟨hl, -⟩ := holds_append.mp hh
  have hcell := hl a (by simpa using ha)
  rwa [Nat.zero_add, List.getElem_map] at hcell

theorem AvoidList.Rep.listed_iff {t : AvoidList} {l : List (Span ℕ)} (h : t.Rep l) {a : ℕ} :
    t.Listed a ↔ a < l.length := by
  constructor
  · intro ha
    by_contra hge
    exact ha l.length (Nat.not_lt.mp hge) h.slot_end
  · intro ha j hj
    rw [h.slot_eq (by omega)]
    exact (h.proper _ (List.getElem_mem _)).2

theorem AvoidList.Rep.bytes {t : AvoidList} {l : List (Span ℕ)} (h : t.Rep l) :
    t.bytes = cover l := by
  ext b
  constructor
  · rintro ⟨a, ha, hlo, hhi⟩
    have hlt := h.listed_iff.mp ha
    rw [h.slot_eq hlt] at hlo hhi
    exact ⟨l[a], List.getElem_mem hlt, hlo, hhi⟩
  · rintro ⟨u, hu, hlo, hhi⟩
    obtain ⟨a, ha, rfl⟩ := List.mem_iff_getElem.mp hu
    refine ⟨a, h.listed_iff.mpr ha, ?_⟩
    rw [h.slot_eq ha]
    exact ⟨hlo, hhi⟩

/-- `[addr, addr + size)` lies inside one entry of `ram_list` and off all of `avoid_list`. -/
structure Clear (s : RamState) (addr size : ℕ) : Prop where
  inside : ∃ r, s.ram.Listed r ∧ (s.ram.slots r).addr ≤ addr ∧
    addr + size ≤ (s.ram.slots r).addr + (s.ram.slots r).size
  off : ∀ a, s.avoid.Listed a → ∀ b, addr ≤ b → b < addr + size →
    ¬ ((s.avoid.slots a).start ≤ b ∧ b < (s.avoid.slots a).end_)

/-- A place in RAM, off what is to be avoided. -/
theorem clear_iff {s : RamState} {a size : ℕ} (hs : ∃ l, s.ram.Rep l) (hsize : 0 < size) :
    Clear s a size ↔ Set.Ico a (a + size) ⊆ s.ram.bytes ∧
      ∀ i, s.avoid.Listed i →
      Disjoint (Set.Ico a (a + size)) (Set.Ico (s.avoid.slots i).start (s.avoid.slots i).end_) := by
  obtain ⟨l, hl⟩ := hs
  rw [hl.bytes]
  constructor
  · rintro ⟨⟨r, hr, hlo, hhi⟩, hoff⟩
    have hlt := hl.listed_iff.mp hr
    rw [(hl.slot_bounds hlt).1] at hlo
    rw [(hl.slot_bounds hlt).2] at hhi
    refine ⟨fun x hx => mem_cover.mpr ⟨_, List.getElem_mem hlt, hlo.trans hx.1, hx.2.trans_le hhi⟩,
      fun i hi => ?_⟩
    exact Set.disjoint_left.mpr fun x hx hx' => hoff i hi x hx.1 hx.2 hx'
  · rintro ⟨hsub, hoff⟩
    obtain ⟨u, hu, hlo, hhi⟩ := hl.normal.exists_of_subset (show a < a + size by omega) hsub
    obtain ⟨r, hr, rfl⟩ := List.mem_iff_getElem.mp hu
    obtain ⟨hfst, hsnd⟩ := hl.slot_bounds hr
    exact ⟨⟨r, hl.listed_iff.mpr hr, hfst.trans_le hlo, hhi.trans_eq hsnd.symm⟩,
      fun i hi x hx hx' hin => Set.disjoint_left.mp (hoff i hi) ⟨hx, hx'⟩ hin⟩

/-- What `avoid_list` leaves of entry `r` of `ram_list`. -/
def Leaves (s : RamState) (r : ℕ) (c : Option (ℕ × ℕ)) : Prop :=
  avoidFrom s.avoid AVOID_SLOTS 0
    ((s.ram.slots r).addr, addW 64 (s.ram.slots r).addr (s.ram.slots r).size) = .ok c

/-- A candidate that ends before it starts is left as it is, or dropped. -/
theorem fix_size_wrapped {s e as ae : ℕ} {c : ℕ × ℕ} (hse : e < s)
    (h : fix_size s e as ae = some c) : c = (s, e) := by
  unfold fix_size at h
  split_ifs at h with h₁ <;> cases h <;> first | rfl | omega

theorem avoidFrom_wrapped {t : AvoidList} {s e : ℕ} (hse : e < s) (fuel a : ℕ) {c : ℕ × ℕ}
    (h : avoidFrom t fuel a (s, e) = .ok (some c)) : c = (s, e) := by
  induction fuel generalizing a with
  | zero => cases h
  | succ fuel ih =>
    rw [avoidFrom] at h
    split_ifs at h with hend
    · cases h
      rfl
    · split at h
      · cases h
      · rename_i c' hfix
        rw [fix_size_wrapped hse hfix] at h
        exact ih (a + 1) h

/-- What is left of a candidate lies in it and off the entries that the loop went through. -/
theorem avoidFrom_within {t : AvoidList} (fuel a : ℕ) {s e s' e' : ℕ} (hse : s ≤ e)
    (h : avoidFrom t fuel a (s, e) = .ok (some (s', e'))) :
    (s ≤ s' ∧ s' ≤ e' ∧ e' ≤ e) ∧ ∀ i, a ≤ i → (∀ j, a ≤ j → j ≤ i → (t.slots j).end_ ≠ 0) →
      ∀ b, s' ≤ b → b < e' → ¬ ((t.slots i).start ≤ b ∧ b < (t.slots i).end_) := by
  induction fuel generalizing a s e with
  | zero => cases h
  | succ fuel ih =>
    rw [avoidFrom] at h
    split_ifs at h with hend
    case pos =>
      cases h
      exact ⟨⟨Nat.le_refl _, hse, Nat.le_refl _⟩, fun i hi hl =>
        absurd hend (hl a (Nat.le_refl _) hi)⟩
    case neg =>
      split at h
      · cases h
      · rename_i c hfix
        obtain ⟨s₁, e₁⟩ := c
        obtain ⟨h₁, hse₁, h₂, hoff⟩ := fix_size_spec hse hfix
        obtain ⟨⟨h₃, hse', h₄⟩, hrest⟩ := ih (a + 1) hse₁ h
        refine ⟨⟨h₁.trans h₃, hse', h₄.trans h₂⟩, fun i hi hl b hb hb' => ?_⟩
        -- A later entry only cuts more off, so what the first one cut off stays off.
        rcases Nat.eq_or_lt_of_le hi with rfl | hlt
        · exact hoff b (h₃.trans hb) (hb'.trans_le h₄)
        · exact hrest i hlt (fun j hj hji => hl j (Nat.le_of_succ_le hj) hji) b hb hb'

theorem Leaves.lt {s : RamState} {r lo hi : ℕ} (h : Leaves s r (some (lo, hi))) : hi < 2 ^ 64 := by
  have he := addW_lt 64 (s.ram.slots r).addr (s.ram.slots r).size
  by_cases hw : (s.ram.slots r).addr ≤ addW 64 (s.ram.slots r).addr (s.ram.slots r).size
  · obtain ⟨⟨-, -, hle⟩, -⟩ := avoidFrom_within AVOID_SLOTS 0 hw h
    exact hle.trans_lt he
  · have heq := avoidFrom_wrapped (Nat.not_le.mp hw) AVOID_SLOTS 0 h
    cases heq
    exact he

/-- Where something that `avoid_list` leaves of entry `r` can start: with the entry, or behind a
range to avoid in it. -/
def Starts (s : RamState) (r lo : ℕ) : Prop :=
  lo = (s.ram.slots r).addr ∨ ∃ a, s.avoid.Listed a ∧ (s.avoid.slots a).end_ = lo ∧
    (s.ram.slots r).addr < lo ∧
    lo < (s.ram.slots r).addr + (s.ram.slots r).size

/-- What is left starts where the candidate did, or behind the range. -/
theorem fix_size_starts {s e as ae s' e' : ℕ} (he : e < 2 ^ 64)
    (h : fix_size s e as ae = some (s', e')) :
    s' = s ∨ s' = ae ∧ s < ae ∧ ae < e := by
  by_cases hsplit : s < as ∧ as < e ∧ ae ≤ e
  · -- What is kept behind the range is not smaller than what there is before it.
    have hhalf : ¬ e - ae < as - s → ae < e := by omega
    unfold fix_size at h
    rw [subW_of_le hsplit.2.2 he, subW_of_le (by omega) (by omega)] at h
    split_ifs at h <;> cases h <;> omega
  · unfold fix_size at h
    split_ifs at h <;> cases h <;> omega

theorem avoidFrom_starts {t : AvoidList} (fuel a : ℕ) {s e s' e' : ℕ} (hse : s ≤ e)
    (he : e < 2 ^ 64)
    (ha : ∀ j < a, (t.slots j).end_ ≠ 0) (h : avoidFrom t fuel a (s, e) = .ok (some (s', e'))) :
    s' = s ∨ ∃ i, t.Listed i ∧ (t.slots i).end_ = s' ∧ s < s' ∧ s' < e := by
  induction fuel generalizing a s e with
  | zero => cases h
  | succ fuel ih =>
    rw [avoidFrom] at h
    split_ifs at h with hend
    · cases h
      exact .inl rfl
    · have ha' : ∀ j < a + 1, (t.slots j).end_ ≠ 0 := fun j hj =>
        (Nat.lt_succ_iff_lt_or_eq.mp hj).elim (ha j) (fun he => he ▸ hend)
      split at h
      · cases h
      · rename_i c hfix
        obtain ⟨s₁, e₁⟩ := c
        obtain ⟨hle, hse₁, hle', -⟩ := fix_size_spec hse hfix
        rcases ih (a + 1) hse₁ (hle'.trans_lt he) ha' h with rfl | ⟨i, hi, hend', hlt, hlt'⟩
        · rcases fix_size_starts he hfix with rfl | ⟨rfl, hlt, hlt'⟩
          · exact .inl rfl
          · exact .inr ⟨a, fun j hj => ha' j (Nat.lt_succ_of_le hj), rfl, hlt, hlt'⟩
        · exact .inr ⟨i, hi, hend', hle.trans_lt hlt, hlt'.trans_le hle'⟩

/-- **Where a candidate starts.** -/
theorem Leaves.starts {s : RamState} {r lo hi : ℕ} (h : Leaves s r (some (lo, hi))) :
    Starts s r lo := by
  by_cases hw : (s.ram.slots r).addr ≤ addW 64 (s.ram.slots r).addr (s.ram.slots r).size
  · refine (avoidFrom_starts AVOID_SLOTS 0 hw (addW_lt ..) nofun h).imp_right
      fun ⟨i, hi, hend, hlt, hlt'⟩ => ?_
    exact ⟨i, hi, hend, hlt, hlt'.trans_le (Nat.mod_le _ _)⟩
  · cases avoidFrom_wrapped (Nat.not_le.mp hw) AVOID_SLOTS 0 h
    exact .inl rfl

/-- A place where a search can start is in RAM. -/
theorem starts_mem {s : RamState} {r lo : ℕ} (hs : ∃ l, s.ram.Rep l) (hr : s.ram.Listed r)
    (h : Starts s r lo) :
    lo ∈ s.ram.bytes := by
  obtain ⟨l, hl⟩ := hs
  have hlt := hl.listed_iff.mp hr
  obtain ⟨hfst, hsnd⟩ := hl.slot_bounds hlt
  have hproper := hl.normal.proper _ (List.getElem_mem hlt)
  rw [hl.bytes]
  refine mem_cover.mpr ⟨_, List.getElem_mem hlt, ?_⟩
  rcases h with rfl | ⟨-, -, -, hlo, hhi⟩
  · exact ⟨hfst.ge, hfst.trans_lt hproper⟩
  · exact ⟨hfst ▸ hlo.le, hsnd ▸ hhi⟩

/-- What is left of an entry ends in it. -/
theorem Leaves.hi_le {s : RamState} {r lo hi : ℕ} (h : Leaves s r (some (lo, hi))) :
    hi ≤ (s.ram.slots r).addr + (s.ram.slots r).size := by
  by_cases hw : (s.ram.slots r).addr ≤ addW 64 (s.ram.slots r).addr (s.ram.slots r).size
  · obtain ⟨⟨-, -, hle⟩, -⟩ := avoidFrom_within AVOID_SLOTS 0 hw h
    exact hle.trans (Nat.mod_le _ _)
  · cases avoidFrom_wrapped (Nat.not_le.mp hw) AVOID_SLOTS 0 h
    exact Nat.mod_le _ _

/-- A range within what is left of a listed entry is clear. -/
theorem Leaves.clear {s : RamState} {r lo hi addr size : ℕ} (hr : s.ram.Listed r)
    (h : Leaves s r (some (lo, hi)))
    (hle : lo ≤ hi) (hlo : lo ≤ addr) (hhi : addr + size ≤ hi) : Clear s addr size := by
  by_cases hw : (s.ram.slots r).addr ≤ addW 64 (s.ram.slots r).addr (s.ram.slots r).size
  · obtain ⟨⟨h₁, -, h₂⟩, hoff⟩ := avoidFrom_within AVOID_SLOTS 0 hw h
    refine ⟨⟨r, hr, h₁.trans hlo, ?_⟩, fun a ha b hb hb' => ?_⟩
    · calc addr + size ≤ hi := hhi
        _ ≤ addW 64 (s.ram.slots r).addr (s.ram.slots r).size := h₂
        _ ≤ (s.ram.slots r).addr + (s.ram.slots r).size := Nat.mod_le _ _
    · exact hoff a (Nat.zero_le _) (fun j _ hj => ha j hj) b (hlo.trans hb) (hb'.trans_le hhi)
  · -- An entry that wraps leaves no candidate that is in order.
    have hw := Nat.not_le.mp hw
    cases avoidFrom_wrapped hw AVOID_SLOTS 0 h
    exact absurd hle (Nat.not_le.mpr hw)

/-! ### Alignment and colour -/

/-- A mask of one run of bits, none of them below the alignment `2 ^ k`, in an `unsigned`. -/
def FieldMask (k mask : ℕ) : Prop := ∃ j n, k ≤ j ∧ j + n ≤ 32 ∧ mask = (2 ^ n - 1) * 2 ^ j

/-- The address that `find_ram_in_range` computes from the start of a candidate, before the range
limits it. -/
def colouredFrom (lo align colour mask : ℕ) : ℕ :=
  let addr := round 64 lo align
  if addr &&& mask ≠ colour then
    let incr := addW 32 (subW 32 mask 1 ||| mask) 1
    (addW 64 addr incr &&& notW 32 mask) ||| colour
  else addr

/-- The rounding stays in 64 bits, and the colouring, if there is any, in 32. -/
def Fits (lo align colour mask : ℕ) : Prop :=
  lo + (align - 1) < 2 ^ 64 ∧ (round 64 lo align &&& mask = colour ∨
    round 64 lo align + (((mask - 1) ||| mask) + 1) < 2 ^ 32)

section Colour

variable {k mask colour lo : ℕ}

theorem FieldMask.lt (hm : FieldMask k mask) : mask < 2 ^ 32 := by
  obtain ⟨j, n, -, h, rfl⟩ := hm
  exact field_lt h

/-- Without a mask there is nothing to colour. -/
theorem mask_ne_zero {x : ℕ} (hc : colour &&& mask = colour) (hne : x &&& mask ≠ colour) :
    mask ≠ 0 := by
  rintro rfl
  exact hne (by rw [← hc, Nat.and_zero, Nat.and_zero])

theorem dvd_and_left {k x : ℕ} (y : ℕ) (h : 2 ^ k ∣ x) : 2 ^ k ∣ x &&& y := by
  rw [Nat.dvd_iff_mod_eq_zero, Nat.and_mod_two_pow, Nat.mod_eq_zero_of_dvd h, Nat.zero_and]

/-- The increment carries over the whole mask, so it is a multiple of the alignment, even when it
wraps. -/
theorem FieldMask.dvd_incr (hm : FieldMask k mask) (hk : k < 32) (h0 : mask ≠ 0) :
    2 ^ k ∣ addW 32 (subW 32 mask 1 ||| mask) 1 := by
  have hlt := hm.lt
  obtain ⟨j, n, hkj, hjn, rfl⟩ := hm
  have hn : 0 < n := Nat.pos_of_ne_zero fun h => h0 (by simp [h])
  rw [subW_of_le (Nat.one_le_iff_ne_zero.mpr h0) hlt, pred_or_field hn, addW,
    Nat.sub_add_cancel (Nat.two_pow_pos _)]
  exact (Nat.dvd_mod_iff (Nat.pow_dvd_pow 2 hk.le)).mpr
    (Nat.pow_dvd_pow 2 (hkj.trans (Nat.le_add_right _ _)))

theorem FieldMask.dvd_colour (hm : FieldMask k mask) (hc : colour &&& mask = colour) :
    2 ^ k ∣ colour := by
  obtain ⟨j, n, hkj, -, rfl⟩ := hm
  rw [← hc, and_field]
  exact dvd_mul_of_dvd_right (Nat.pow_dvd_pow 2 hkj) _

theorem dvd_coloured (hk : k < 32) (hm : FieldMask k mask) (hc : colour &&& mask = colour) :
    2 ^ k ∣ colouredFrom lo (2 ^ k) colour mask := by
  have hround : 2 ^ k ∣ round 64 lo (2 ^ k) := Nat.dvd_of_mod_eq_zero (round_mod (by omega) lo)
  simp only [colouredFrom]
  split
  case isFalse => exact hround
  case isTrue hne =>
    have h0 : mask ≠ 0 := mask_ne_zero hc hne
    have hsum : 2 ^ k ∣ addW 64 (round 64 lo (2 ^ k)) (addW 32 (subW 32 mask 1 ||| mask) 1) :=
      (Nat.dvd_mod_iff (Nat.pow_dvd_pow 2 (by omega))).mpr (Nat.dvd_add hround (hm.dvd_incr hk h0))
    rw [Nat.dvd_iff_mod_eq_zero, Nat.or_mod_two_pow, Nat.mod_eq_zero_of_dvd (dvd_and_left _ hsum),
      Nat.mod_eq_zero_of_dvd (hm.dvd_colour hc), Nat.or_zero]

theorem coloured_and (hm : FieldMask k mask) (hc : colour &&& mask = colour) (align : ℕ) :
    colouredFrom lo align colour mask &&& mask = colour := by
  simp only [colouredFrom]
  split
  case isFalse he => exact not_not.mp he
  case isTrue => rw [Nat.and_or_distrib_right, and_notW_and hm.lt, Nat.zero_or, hc]

/-- An address that fits is not below the candidate: what colouring clears is less than what it
carried. -/
theorem fits_le_coloured (hk : k < 32) (hm : FieldMask k mask) (hc : colour &&& mask = colour)
    (hf : Fits lo (2 ^ k) colour mask) : lo ≤ colouredFrom lo (2 ^ k) colour mask := by
  have hround : lo ≤ round 64 lo (2 ^ k) :=
    le_round (Nat.two_pow_pos k) (Nat.pow_lt_pow_right (by decide) (by omega)) hf.1
  refine hround.trans ?_
  simp only [colouredFrom]
  split
  case isFalse => exact Nat.le_refl _
  case isTrue hne =>
    have hcarry := hf.2.resolve_left hne
    have hlt := hm.lt
    have hmask : mask ≤ (mask - 1) ||| mask := Nat.right_le_or
    have hincr : addW 32 (subW 32 mask 1 ||| mask) 1 = ((mask - 1) ||| mask) + 1 := by
      rw [subW_of_le (Nat.one_le_iff_ne_zero.mpr (mask_ne_zero hc hne)) hlt, addW_of_lt (by omega)]
    generalize round 64 lo (2 ^ k) = x at hcarry ⊢
    rw [hincr, addW_of_lt (by omega)]
    have hsplit := and_add_and_notW hcarry hlt
    have hle : (x + (((mask - 1) ||| mask) + 1)) &&& mask ≤ mask := Nat.and_le_right
    calc x ≤ (x + (((mask - 1) ||| mask) + 1)) &&& notW 32 mask := by omega
      _ ≤ _ := Nat.left_le_or

end Colour

/-! ### The search -/

theorem fitRange_eq (range_start range_end size align colour mask lo hi : ℕ) :
    fitRange range_start range_end size align colour mask lo hi =
      let addr := colouredFrom lo align colour mask
      let addr := if range_start ≠ 0 ∧ addr < range_start then range_start else addr
      let e := if range_end ≠ 0 ∧ range_end < hi then range_end else hi
      if e ≤ addr then none else if size ≤ e - addr then some addr else none :=
  rfl

/-- What was asked for. -/
structure Found (s : RamState) (range_start range_end size align colour mask addr : ℕ) : Prop where
  aligned : align ∣ addr
  coloured : addr &&& mask = colour
  start : range_start ≤ addr
  end_ : range_end ≠ 0 → addr + size ≤ range_end
  clear : Clear s addr size

/-- Where the address that is made from a start is not raised to `range_start`, the rounding and the
colouring do not overflow; where it is, `range_start` is itself aligned and coloured, and not before
the start. -/
def Suited (range_start align colour mask lo : ℕ) : Prop :=
  if range_start ≤ colouredFrom lo align colour mask then Fits lo align colour mask
  else align ∣ range_start ∧ range_start &&& mask = colour ∧ lo ≤ range_start

instance (range_start align colour mask lo : ℕ) :
    Decidable (Suited range_start align colour mask lo) := by
  unfold Suited Fits
  infer_instance

/-- **When every address is right**: in each entry that has room behind `range_start`, every start
is suited. -/
def AllSuited (s : RamState) (range_start size align colour mask : ℕ) : Prop :=
  ∀ r, s.ram.Listed r → range_start + size ≤ (s.ram.slots r).addr + (s.ram.slots r).size →
    ∀ lo, Starts s r lo → Suited range_start align colour mask lo

section Search

variable {s : RamState} {range_start range_end size align colour mask r lo hi addr : ℕ}

/-- An address that fits is the coloured one or the start of the range, and leaves room to both
ends. -/
theorem fitRange_some
    (h : fitRange range_start range_end size align colour mask lo hi = some addr) :
    addr = max range_start (colouredFrom lo align colour mask) ∧
      (addr < hi ∧ addr + size ≤ hi) ∧ (range_end ≠ 0 → addr + size ≤ range_end) := by
  rw [fitRange_eq] at h
  generalize colouredFrom lo align colour mask = x at h
  have hmax : (if range_start ≠ 0 ∧ x < range_start then range_start else x) =
      max range_start x := by
    split <;> omega
  simp only [hmax] at h
  generalize max range_start x = y at h
  obtain ⟨e, he⟩ : ∃ e, e = if range_end ≠ 0 ∧ range_end < hi then range_end else hi := ⟨_, rfl⟩
  rw [← he] at h
  split_ifs at h with hlt hsize
  cases h
  refine ⟨rfl, ?_⟩
  split at he <;> omega

/-- An entry that is listed, by what `avoid_list` leaves of it. -/
theorem findFrom_listed (hne : (s.ram.slots r).size ≠ 0) {c : Option (ℕ × ℕ)} (hc : Leaves s r c)
    (fuel : ℕ) :
    findFrom s.ram s.avoid range_start range_end size align colour mask (fuel + 1) r =
      match c.bind fun c => fitRange range_start range_end size align colour mask c.1 c.2 with
      | some addr => .ok addr
      | none =>
          findFrom s.ram s.avoid range_start range_end size align colour mask fuel (r + 1) := by
  simp only [findFrom, if_neg hne]
  rw [show avoidFrom s.avoid AVOID_SLOTS 0 _ = .ok c from hc, ok_bind]
  cases c with
  | none => rfl
  | some c =>
    simp only [Option.bind_some]
    cases fitRange range_start range_end size align colour mask c.1 c.2 <;> rfl

/-- The address comes from what is left of an entry, the first one in which it fits. -/
theorem findFrom_left (fuel r : ℕ) (hlisted : ∀ j < r, (s.ram.slots j).size ≠ 0)
    (h : findFrom s.ram s.avoid range_start range_end size align colour mask fuel r = .ok addr)
    (hnull : addr ≠ NULL_PADDR) :
    ∃ r' lo hi, s.ram.Listed r' ∧ Leaves s r' (some (lo, hi)) ∧
      fitRange range_start range_end size align colour mask lo hi = some addr ∧
      ∀ j, r ≤ j → j < r' → ∀ lo hi, Leaves s j (some (lo, hi)) →
        fitRange range_start range_end size align colour mask lo hi = none := by
  induction fuel generalizing r with
  | zero => cases h
  | succ fuel ih =>
    by_cases hne : (s.ram.slots r).size = 0
    · rw [findFrom, if_pos hne] at h
      cases h
      exact absurd rfl hnull
    · have hlisted' : ∀ j < r + 1, (s.ram.slots j).size ≠ 0 := fun j hj =>
        (Nat.lt_succ_iff_lt_or_eq.mp hj).elim (hlisted j) (fun he => he ▸ hne)
      obtain ⟨c, hc⟩ : ∃ c, Leaves s r c := by
        rw [findFrom, if_neg hne] at h
        obtain ⟨c, hc, -⟩ := bind_eq_ok.mp h
        exact ⟨c, hc⟩
      rw [findFrom_listed hne hc] at h
      cases hfit : c.bind fun c =>
        fitRange range_start range_end size align colour mask c.1 c.2 with
      | none =>
        rw [hfit] at h
        obtain ⟨r', lo, hi, hr', hl, hfit', hfirst⟩ := ih (r + 1) hlisted' h
        refine ⟨r', lo, hi, hr', hl, hfit', fun j hj hjr lo hi hleft => ?_⟩
        rcases Nat.eq_or_lt_of_le hj with rfl | hlt
        · cases hc.symm.trans hleft
          exact hfit
        · exact hfirst j hlt hjr lo hi hleft
      | some p =>
        rw [hfit] at h
        cases h
        obtain ⟨⟨lo, hi⟩, rfl, hfit⟩ := Option.bind_eq_some_iff.mp hfit
        exact ⟨r, lo, hi, fun j hj => hlisted' j (Nat.lt_succ_of_le hj), hc, hfit,
          fun j hj hjr => absurd hjr (Nat.not_lt.mpr hj)⟩

/-- The address that is made from a suited start is what was asked for. -/
theorem Suited.found {k : ℕ} (hk : k < 32) (hm : FieldMask k mask) (hc : colour &&& mask = colour)
    (hr : s.ram.Listed r) (hl : Leaves s r (some (lo, hi)))
    (hfit : fitRange range_start range_end size (2 ^ k) colour mask lo hi = some addr)
    (h : Suited range_start (2 ^ k) colour mask lo) :
    Found s range_start range_end size (2 ^ k) colour mask addr := by
  obtain ⟨haddr, ⟨hlt, hhi⟩, hend⟩ := fitRange_some hfit
  have hclear : lo ≤ addr → Clear s addr size := fun hlo => hl.clear hr (hlo.trans hlt.le) hlo hhi
  have hstart : range_start ≤ addr := haddr ▸ Nat.le_max_left _ _
  unfold Suited at h
  split at h
  case isTrue hle =>
    rw [Nat.max_eq_right hle] at haddr
    exact ⟨haddr ▸ dvd_coloured hk hm hc, haddr ▸ coloured_and hm hc _, hstart, hend,
      hclear (haddr ▸ fits_le_coloured hk hm hc h)⟩
  case isFalse hle =>
    rw [Nat.max_eq_left (Nat.le_of_not_le hle)] at haddr
    obtain ⟨ha, hcol, hlo⟩ := h
    subst haddr
    exact ⟨ha, hcol, hstart, hend, hclear hlo⟩

/-- Without a colour, a search ends up at a start that is rounded up. -/
theorem find_ram_place {k : ℕ} (hk : k < 32) (h : find_ram s size (2 ^ k) 0 0 = .ok addr)
    (hnull : addr ≠ NULL_PADDR) :
    ∃ r lo, s.ram.Listed r ∧ Starts s r lo ∧ addr = round 64 lo (2 ^ k) ∧ addr + size < 2 ^ 64 ∧
      (lo + (2 ^ k - 1) < 2 ^ 64 → Clear s addr size) ∧
      ∀ j < r, ∀ lo hi, Leaves s j (some (lo, hi)) →
        fitRange 0 (2 ^ 64 - 1) size (2 ^ k) 0 0 lo hi = none := by
  obtain ⟨r, lo, hi, hr, hl, hfit, hfirst⟩ := findFrom_left RAM_SLOTS 0 nofun h hnull
  obtain ⟨haddr, ⟨-, hhi⟩, -⟩ := fitRange_some hfit
  refine ⟨r, lo, hr, hl.starts, by simpa [colouredFrom] using haddr, hhi.trans_lt hl.lt,
    fun hlast => ?_, fun j hj => hfirst j (Nat.zero_le j) hj⟩
  have hsuited : Suited 0 (2 ^ k) 0 0 lo := by
    rw [Suited, if_pos (Nat.zero_le _)]
    exact ⟨hlast, .inl (Nat.and_zero _)⟩
  have hmask : FieldMask k 0 := ⟨k, 0, Nat.le_refl k, by omega, by simp⟩
  exact (hsuited.found hk hmask rfl hr hl hfit).clear

end Search

/-! ### Enough room -/

/-- What a stretch of RAM has to have so that `need` bytes in one piece are left of it: each range
to avoid takes itself away, and in the worst case half of the rest. -/
def roomNeeded (need : ℕ) : List (Span ℕ) → ℕ
  | [] => need
  | u :: l => (u.hi - u.lo) + 2 * roomNeeded need l

theorem le_roomNeeded (need : ℕ) (l : List (Span ℕ)) : need ≤ roomNeeded need l := by
  induction l with
  | nil => exact Nat.le_refl _
  | cons u l ih =>
      rw [roomNeeded]
      omega

theorem fix_size_room {s e as ae need : ℕ} (hse : s ≤ e) (he : e < 2 ^ 64) (hneed : 0 < need)
    (hroom : (ae - as) + 2 * need ≤ e - s) :
      ∃ s' e', fix_size s e as ae = some (s', e') ∧ need ≤ e' - s' := by
  unfold fix_size
  split_ifs with hoff hin hall hlast hhalf
  · exact ⟨s, e, rfl, by omega⟩
  · omega
  · exact ⟨ae, e, rfl, by omega⟩
  · exact ⟨s, as, rfl, by omega⟩
  · rw [subW_of_le (by omega) he, subW_of_le (by omega) (by omega)] at hhalf
    exact ⟨s, as, rfl, by omega⟩
  · rw [subW_of_le (by omega) he, subW_of_le (by omega) (by omega)] at hhalf
    exact ⟨ae, e, rfl, by omega⟩

/-- What the avoid list leaves of a stretch that has room. -/
theorem avoidFrom_room {t : AvoidList} {need : ℕ} (hneed : 0 < need) :
    ∀ (m : List (Span ℕ)) (fuel : ℕ)
    (l : List (Span ℕ)) (s e : ℕ), s ≤ e → e < 2 ^ 64 → t.Rep (l ++ m) → m.length < fuel →
    roomNeeded need m ≤ e - s →
    ∃ s' e', avoidFrom t fuel l.length (s, e) = .ok (some (s', e')) ∧ need ≤ e' - s'
  | _, 0, _, _, _, _, _, _, hf, _ => absurd hf (Nat.not_lt_zero _)
  | [], fuel + 1, l, s, e, _, _, h, _, hroom => by
      rw [List.append_nil] at h
      exact ⟨s, e, by rw [avoidFrom, if_pos h.slot_end], hroom⟩
  | u :: m, fuel + 1, l, s, e, hse, he, h, hf, hroom => by
      have hne : (t.slots l.length).end_ ≠ 0 := by
        rw [h.slot]
        exact (h.proper u (by simp)).2
      rw [roomNeeded] at hroom
      have hpos := hneed.trans_le (le_roomNeeded need m)
      obtain ⟨s₁, e₁, hfix, hleft⟩ := fix_size_room hse he hpos hroom
      obtain ⟨-, hse₁, he₁, -⟩ := fix_size_spec hse hfix
      have ih := avoidFrom_room hneed m fuel (l ++ [u]) s₁ e₁ hse₁ (he₁.trans_lt he)
        (by simpa using h) (by simpa using hf) hleft
      rw [List.length_append, List.length_singleton] at ih
      rw [avoidFrom, if_neg hne, h.slot]
      simp only [encAvoid, hfix]
      exact ih

theorem fitRange_room {size align lo hi : ℕ} (hsize : 0 < size) (ha : 0 < align)
    (haw : align < 2 ^ 64) (hhi : hi < 2 ^ 64) (hroom : size + (align - 1) ≤ hi - lo) :
    (fitRange 0 (2 ^ 64 - 1) size align 0 0 lo hi).isSome := by
  have hround : round 64 lo align ≤ lo + (align - 1) := by
    rw [Support.round, subW_of_le ha haw, addW_of_lt (by omega)]
    exact trunc_le ..
  simp only [fitRange, Nat.and_zero, ne_eq, not_true, false_and, if_false]
  split_ifs <;> first | rfl | omega

/-- The search does not go past an entry with room. -/
theorem findFrom_ne_null {s : RamState} {range_start range_end size align colour mask r lo hi : ℕ}
    (hsize : 0 < size) (hr : s.ram.Listed r) (hl : Leaves s r (some (lo, hi)))
    (hfit : (fitRange range_start range_end size align colour mask lo hi).isSome) (fuel j : ℕ)
    (hj : j ≤ r) :
    findFrom s.ram s.avoid range_start range_end size align colour mask fuel j ≠
      .ok NULL_PADDR := by
  induction fuel generalizing j with
  | zero => nofun
  | succ fuel ih =>
    intro h
    have hne := hr j hj
    obtain ⟨c, hc⟩ : ∃ c, Leaves s j c := by
      rw [findFrom, if_neg hne] at h
      obtain ⟨c, hc, -⟩ := bind_eq_ok.mp h
      exact ⟨c, hc⟩
    rw [findFrom_listed hne hc] at h
    cases hp : c.bind fun c => fitRange range_start range_end size align colour mask c.1 c.2 with
    | none =>
      rw [hp] at h
      rcases Nat.eq_or_lt_of_le hj with rfl | hlt
      · cases hl.symm.trans hc
        rw [Option.bind_some] at hp
        rw [hp] at hfit
        cases hfit
      · exact ih (j + 1) hlt h
    | some p =>
      rw [hp] at h
      cases h
      obtain ⟨⟨lo', hi'⟩, rfl, hp⟩ := Option.bind_eq_some_iff.mp hp
      obtain ⟨-, ⟨-, hle⟩, -⟩ := fitRange_some hp
      have hlt := hc.lt
      simp only [NULL_PADDR] at hle
      omega

/-- The avoid list leaves `need` bytes of an entry with the room that is needed. -/
theorem leaves_room {s : RamState} {l al : List (Span ℕ)} (hl : s.ram.Rep l) (hal : s.avoid.Rep al)
    {r need : ℕ} (hr : s.ram.Listed r) (hneed : 0 < need)
    (hroom : roomNeeded need al ≤ (s.ram.slots r).size) :
    ∃ lo hi, Leaves s r (some (lo, hi)) ∧ need ≤ hi - lo := by
  have hlt := listed_lt ⟨l, hl⟩ hr
  obtain ⟨lo, hi, hleft, hlen⟩ := avoidFrom_room hneed al AVOID_SLOTS [] _ _
    (Nat.le_add_right (s.ram.slots r).addr (s.ram.slots r).size) hlt hal hal.length_lt (by omega)
  exact ⟨lo, hi, by rwa [Leaves, addW_of_lt hlt], hlen⟩

/-- **Room enough.**  A stretch of RAM that has the room that is needed is found, or something
before it. -/
theorem find_ram_room {s : RamState} {l al : List (Span ℕ)} (hl : s.ram.Rep l)
    (hal : s.avoid.Rep al) {x size align : ℕ}
    (hsize : 0 < size) (ha : 0 < align) (haw : align < 2 ^ 64)
    (hroom : Set.Ico x (x + roomNeeded (size + (align - 1)) al) ⊆ cover l) :
    find_ram s size align 0 0 ≠ .ok NULL_PADDR := by
  have hneed : 0 < size + (align - 1) := by omega
  have hpos := hneed.trans_le (le_roomNeeded _ al)
  obtain ⟨u, hu, hlo, hhi⟩ := hl.normal.exists_of_subset (Nat.lt_add_of_pos_right hpos) hroom
  obtain ⟨r, hr, rfl⟩ := List.mem_iff_getElem.mp hu
  obtain ⟨hfst, hsnd⟩ := hl.slot_bounds hr
  have hlisted := hl.listed_iff.mpr hr
  obtain ⟨lo', hi', hleaves, hlen⟩ := leaves_room hl hal hlisted hneed (by omega)
  exact findFrom_ne_null hsize hlisted hleaves (fitRange_room hsize ha haw hleaves.lt hlen)
    RAM_SLOTS 0 (Nat.zero_le _)

/-- A search goes past entries only that do not have the room that is needed. -/
theorem find_ram_first {s : RamState} {l al : List (Span ℕ)} (hl : s.ram.Rep l)
    (hal : s.avoid.Rep al) {k size addr : ℕ} (hk : k < 32) (hsize : 0 < size)
    (h : find_ram s size (2 ^ k) 0 0 = .ok addr) (hnull : addr ≠ NULL_PADDR) :
    ∃ r lo, s.ram.Listed r ∧ Starts s r lo ∧ addr = round 64 lo (2 ^ k) ∧
      (lo + (2 ^ k - 1) < 2 ^ 64 → Clear s addr size) ∧
      ∀ j < r, (s.ram.slots j).size < roomNeeded (size + (2 ^ k - 1)) al := by
  obtain ⟨r, lo, hr, hstarts, haddr, -, hclear, hfirst⟩ := find_ram_place hk h hnull
  refine ⟨r, lo, hr, hstarts, haddr, hclear, fun j hj => ?_⟩
  by_contra hroom
  obtain ⟨lo', hi', hleaves, hlen⟩ := leaves_room hl hal (fun i hi => hr i (hi.trans hj.le))
    (show 0 < size + (2 ^ k - 1) by omega) (Nat.not_lt.mp hroom)
  have hfit := fitRange_room hsize (Nat.two_pow_pos k)
    (Nat.pow_lt_pow_right (by decide) (by omega)) hleaves.lt hlen
  rw [hfirst j hj lo' hi' hleaves] at hfit
  cases hfit

/-- A single bank, and nothing to avoid. -/
def oneEntry (addr size : ℕ) : RamState :=
  { emptyRam with ram := ⟨Function.update (fun _ => ⟨0, 0⟩) 0 ⟨addr, size⟩, 2 * ENTRY_SIZE⟩ }

theorem oneEntry_listed {addr size r : ℕ} (h : (oneEntry addr size).ram.Listed r) : r = 0 := by
  by_contra hr
  refine h r (Nat.le_refl r) ?_
  simp [oneEntry, Function.update_of_ne hr]

theorem fieldMask_colours : FieldMask 12 0x3000 := ⟨12, 2, Nat.le_refl _, by decide, by decide⟩

end Startup
