import RpiBsp.Startup.Ram.FreeList

/-!
# Startup — RAM — searching

What `avoid_list` is for, and what a search brings back.

* `avoidAdd_spec` — `avoid_ram` adds its range to what the list covers;
* `avoidFrom_spec` — what is left of a candidate lies in it and off the list;
* `find_ram_spec` — an address that `find_ram` returns starts a range that is free and not to be
  avoided;
* `find_ram_aligned` — and it is aligned;
* `alloc_ram_found` — `alloc_ram` takes out of the tables what the search brought back.
-/

namespace Startup

open Support

/-! ### `avoid_list` -/

def encAvoid (s : Span ℕ) : AvoidEntry := ⟨s.lo, s.hi⟩

/-- The table holds the spans `l`, then its end, and `avoid_list_size` says so.  No span ends at
0: such an entry would be the end of the list. -/
structure AvoidList.Rep (t : AvoidList) (l : List (Span ℕ)) : Prop where
  holds : ∃ z : AvoidEntry, z.end_ = 0 ∧ Holds t.slots 0 (l.map encAvoid ++ [z])
  size : t.avoid_list_size = (l.length + 1) * ENTRY_SIZE
  room : t.avoid_list_size ≤ MAX_AVOID_LIST_SIZE
  nonempty : l ≠ []
  proper : ∀ s ∈ l, s.lo ≤ s.hi ∧ s.hi ≠ 0

namespace AvoidList.Rep

variable {t : AvoidList} {l m : List (Span ℕ)} {s : Span ℕ}

theorem length_lt (h : t.Rep l) : l.length < AVOID_SLOTS := by
  have h₁ := h.size
  have h₂ := h.room
  simp only [ENTRY_SIZE, MAX_AVOID_LIST_SIZE, AVOID_SLOTS] at *
  omega

theorem slot (h : t.Rep (l ++ s :: m)) : t.slots l.length = encAvoid s := by
  obtain ⟨z, -, hz⟩ := h.holds
  rw [List.map_append, List.map_cons, List.append_assoc] at hz
  exact hz.cell (by simp)

theorem slot_end (h : t.Rep l) : (t.slots l.length).end_ = 0 := by
  obtain ⟨z, hz, hh⟩ := h.holds
  rw [hh.cell (by simp), hz]

end AvoidList.Rep

/-- `avoid_ram` either lengthens the last entry or makes a new one; both ways the list then covers
the range too. -/
theorem avoidAdd_spec {t : AvoidList} {l : List (Span ℕ)} (h : t.Rep l) {start size : ℕ}
    (hw : start + size < 2 ^ 64) (hne : start + size ≠ 0) {t' : AvoidList}
    (ht' : avoidAdd start size t = .ok t') :
    ∃ l', t'.Rep l' ∧ cover l' = cover l ∪ Set.Ico start (start + size) := by
  obtain ⟨z, hz, hh⟩ := h.holds
  obtain ⟨l, s, rfl⟩ : ∃ l₀ s, l = l₀ ++ [s] :=
    ⟨l.dropLast, l.getLast h.nonempty, (List.dropLast_concat_getLast h.nonempty).symm⟩
  have hs := h.proper s (by simp)
  have hsize := h.size
  have hlen : t.avoid_list_size / ENTRY_SIZE = l.length + 2 := by
    rw [hsize]; simp [ENTRY_SIZE]
  have hlast : t.slots l.length = encAvoid s := h.slot
  simp only [avoidAdd, hlen, Nat.add_sub_cancel, hlast, encAvoid] at ht'
  have hge : ENTRY_SIZE ≤ t.avoid_list_size := by
    rw [hsize]; exact Nat.le_mul_of_pos_left _ (Nat.succ_pos _)
  by_cases hj : s.hi = start
  · -- The new range continues the last one.
    have hc : ENTRY_SIZE ≤ t.avoid_list_size ∧ s.hi = start := ⟨hge, hj⟩
    rw [if_pos hc] at ht'
    split_ifs at ht' with hroom
    cases ht'
    refine ⟨l ++ [⟨s.lo, start + size⟩], ⟨⟨z, hz, ?_⟩, ?_, ?_, by simp, ?_⟩, ?_⟩
    · have hr : Holds t.slots 0 (l.map encAvoid ++ encAvoid s :: [z]) := by simpa using hh
      have := hr.replace (r := l.length) (w := encAvoid ⟨s.lo, start + size⟩) (by simp)
      simpa [encAvoid, hj, addW_of_lt hw] using this
    · simpa using hsize
    · exact h.room
    · intro u hu
      rcases List.mem_append.mp hu with hu | hu
      · exact h.proper u (by simp [hu])
      · obtain rfl := List.mem_singleton.mp hu
        exact ⟨by simp only; omega, hne⟩
    · ext b
      simp only [cover_append, cover_cons, cover_nil, Set.mem_union, Span.mem_set, Set.mem_Ico,
        Set.mem_empty_iff_false, or_false]
      have : (s.lo ≤ b ∧ b < start + size) ↔
          (s.lo ≤ b ∧ b < s.hi) ∨ start ≤ b ∧ b < start + size := by omega
      rw [this, or_assoc]
  · have hc : ¬ (ENTRY_SIZE ≤ t.avoid_list_size ∧ s.hi = start) := fun hc => hj hc.2
    rw [if_neg hc] at ht'
    split_ifs at ht' with hroom
    cases ht'
    set f := Function.update t.slots (l.length + 1) ⟨start, addW 64 start size⟩ with hf
    refine ⟨l ++ [s] ++ [⟨start, start + size⟩],
      ⟨⟨{ f (l.length + 2) with end_ := 0 }, rfl, ?_⟩, ?_, ?_, by simp, ?_⟩, ?_⟩
    · have hr : Holds t.slots 0 ((l ++ [s]).map encAvoid ++ z :: []) := hh
      have hnew := hr.replace (r := l.length + 1) (w := encAvoid ⟨start, start + size⟩) (by simp)
      rw [holds_append]
      refine ⟨Holds.update_apart ?_ (by simp), holds_cons.mpr ⟨by simp [hf], Holds.nil _ _⟩⟩
      simpa [hf, encAvoid, addW_of_lt hw] using hnew
    · rw [List.length_append, List.length_singleton, Nat.succ_mul, ← hsize]
    · exact not_lt.mp hroom
    · intro u hu
      rcases List.mem_append.mp hu with hu | hu
      · exact h.proper u hu
      · obtain rfl := List.mem_singleton.mp hu
        exact ⟨Nat.le_add_right _ _, hne⟩
    · ext b
      simp only [cover_append, cover_cons, cover_nil, Set.mem_union, Span.mem_set, Set.mem_Ico,
        Set.mem_empty_iff_false, or_false]

/-! ### Candidates -/

/-- What `fix_size` leaves of a candidate. -/
theorem fix_size_spec {s e as ae s' e' : ℕ} (hse : s ≤ e)
    (h : fix_size s e as ae = some (s', e')) :
    s ≤ s' ∧ s' ≤ e' ∧ e' ≤ e ∧ ∀ b, s' ≤ b → b < e' → ¬ (as ≤ b ∧ b < ae) := by
  unfold fix_size at h
  split_ifs at h <;> cases h <;>
    refine ⟨by omega, by omega, by omega, fun b h₁ h₂ h₃ => by omega⟩

theorem avoidFrom_spec {t : AvoidList} : ∀ (m : List (Span ℕ)) (fuel : ℕ) (l : List (Span ℕ))
    (s e : ℕ), s ≤ e → t.Rep (l ++ m) → m.length < fuel →
    avoidFrom t fuel l.length (s, e) = .ok none ∨
    ∃ s' e', avoidFrom t fuel l.length (s, e) = .ok (some (s', e')) ∧ s ≤ s' ∧ s' ≤ e' ∧ e' ≤ e ∧
      ∀ b, s' ≤ b → b < e' → b ∉ cover m
  | _, 0, _, _, _, _, _, hf => absurd hf (Nat.not_lt_zero _)
  | [], fuel + 1, l, s, e, hse, h, _ => by
      rw [List.append_nil] at h
      refine .inr ⟨s, e, ?_, le_rfl, hse, le_rfl, by simp⟩
      rw [avoidFrom, if_pos h.slot_end]
  | u :: m, fuel + 1, l, s, e, hse, h, hf => by
      have hne : (t.slots l.length).end_ ≠ 0 := by
        rw [h.slot]; exact (h.proper u (by simp)).2
      rw [avoidFrom, if_neg hne, h.slot]
      cases hfix : fix_size s e (encAvoid u).start (encAvoid u).end_ with
      | none => exact .inl rfl
      | some c =>
          obtain ⟨s₁, e₁⟩ := c
          obtain ⟨h₁, hse₁, h₂, h₃⟩ := fix_size_spec hse hfix
          have h' : t.Rep ((l ++ [u]) ++ m) := by simpa using h
          have ih := avoidFrom_spec m fuel (l ++ [u]) s₁ e₁ hse₁ h' (by simpa using hf)
          rw [List.length_append, List.length_singleton] at ih
          rcases ih with ih | ⟨s', e', ih, h₄, hse₂, h₅, h₆⟩
          · exact .inl ih
          · -- A later entry only cuts more off, so what the first one cut off stays off.
            refine .inr ⟨s', e', ih, h₁.trans h₄, hse₂, h₅.trans h₂, fun b hb hb' => ?_⟩
            rw [cover_cons]
            rintro (hu | hm)
            · exact h₃ b (h₄.trans hb) (hb'.trans_le h₅) hu
            · exact h₆ b hb hb' hm

/-! ### `find_ram` -/

/-- `[addr, addr + size)` lies in free RAM and meets nothing that is to be avoided. -/
structure Usable (l al : List (Span ℕ)) (addr size : ℕ) : Prop where
  inside : ∃ u ∈ l, u.lo ≤ addr ∧ addr < u.hi ∧ addr + size ≤ u.hi
  off : ∀ b, addr ≤ b → b < addr + size → b ∉ cover al

theorem Usable.cover {l al : List (Span ℕ)} {addr size : ℕ} (h : Usable l al addr size) :
    Set.Ico addr (addr + size) ⊆ cover l := by
  obtain ⟨u, hu, h₁, -, h₂⟩ := h.inside
  intro b hb
  exact mem_cover.mpr ⟨u, hu, ⟨h₁.trans hb.1, hb.2.trans_le h₂⟩⟩

/-- The highest address a search may round up from: `align` is an `unsigned`. -/
def RAM_LIMIT : ℕ := 2 ^ 64 - 2 ^ 32

/-- Of a candidate, `find_ram` takes the first aligned address that leaves enough room. -/
theorem fitRange_spec {size align s e addr : ℕ} (ha : 0 < align) (haw : align < 2 ^ 32)
    (hs : s ≤ RAM_LIMIT)
    (h : fitRange 0 (2 ^ 64 - 1) size align 0 0 s e = some addr) :
    s ≤ addr ∧ addr < e ∧ addr + size ≤ e := by
  have hr : s ≤ round 64 s align := by
    refine le_round ha (haw.trans (by decide)) ?_
    simp only [RAM_LIMIT] at hs; omega
  simp only [fitRange, Nat.and_zero, ne_eq, not_true, false_and, if_false] at h
  split_ifs at h with hc <;> cases h <;> refine ⟨hr, ?_, ?_⟩ <;> omega

theorem findFrom_spec {ram : RamList} {avoid : AvoidList} {al : List (Span ℕ)}
    (hal : avoid.Rep al) {align : ℕ} (size : ℕ) (ha : 0 < align) (haw : align < 2 ^ 32) :
    ∀ (m : List (Span ℕ)) (fuel : ℕ) (l : List (Span ℕ)), ram.Rep (l ++ m) → m.length < fuel →
      (∀ u ∈ m, u.hi ≤ RAM_LIMIT) → ∃ addr,
      findFrom ram avoid 0 (2 ^ 64 - 1) size align 0 0 fuel l.length = .ok addr ∧
      (addr = NULL_PADDR ∨ Usable m al addr size)
  | _, 0, _, _, hf, _ => absurd hf (Nat.not_lt_zero _)
  | [], fuel + 1, l, h, _, _ => by
      rw [List.append_nil] at h
      refine ⟨NULL_PADDR, ?_, .inl rfl⟩
      rw [findFrom, if_pos (h.raw.slot_end rfl)]
  | u :: m, fuel + 1, l, h, hf, hlim => by
      have hu := h.raw.at_
      have hstep := findFrom_spec hal size ha haw m fuel (l ++ [u]) (by simpa using h)
        (by simpa using hf) fun v hv => hlim v (by simp [hv])
      rw [List.length_append, List.length_singleton] at hstep
      -- Whatever happens to this candidate, the rest of the list gives what it gives.
      have hrest : ∃ addr, findFrom ram avoid 0 (2 ^ 64 - 1) size align 0 0 fuel
          (l.length + 1) = .ok addr ∧ (addr = NULL_PADDR ∨ Usable (u :: m) al addr size) := by
        obtain ⟨addr, haddr, hres⟩ := hstep
        refine ⟨addr, haddr, hres.imp_right fun ⟨⟨v, hv, hin⟩, hoff⟩ => ?_⟩
        exact ⟨⟨v, by simp [hv], hin⟩, hoff⟩
      have hne : (ram.slots l.length).size ≠ 0 := by
        rw [h.raw.slot rfl]; exact enc_size_ne hu.1
      rw [findFrom, if_neg hne, h.raw.slot rfl]
      simp only [addW_enc hu]
      have hav := avoidFrom_spec al AVOID_SLOTS [] u.lo u.hi hu.1.le hal hal.length_lt
      rw [List.length_nil] at hav
      rcases hav with hav | ⟨s, e, hav, h₁, hse, h₂, h₃⟩
      · rw [show (enc u).addr = u.lo from rfl, hav]
        exact hrest
      · rw [show (enc u).addr = u.lo from rfl, hav]
        simp only [bind, Except.bind]
        cases hfit : fitRange 0 (2 ^ 64 - 1) size align 0 0 s e with
        | none => exact hrest
        | some addr =>
            have hs : s ≤ RAM_LIMIT := (hse.trans h₂).trans (hlim u (by simp))
            obtain ⟨h₄, h₅, h₆⟩ := fitRange_spec ha haw hs hfit
            refine ⟨addr, rfl, .inr ⟨⟨u, by simp, ?_⟩, fun b hb hb' => ?_⟩⟩
            · exact ⟨h₁.trans h₄, h₅.trans_le h₂, h₆.trans h₂⟩
            · exact h₃ b (h₄.trans hb) (hb'.trans_le h₆)

theorem find_ram_spec {s : RamState} {l al : List (Span ℕ)} (hl : s.ram.Rep l)
    (hal : s.avoid.Rep al) (hlim : ∀ u ∈ l, u.hi ≤ RAM_LIMIT) (size : ℕ) {align : ℕ}
    (ha : 0 < align) (haw : align < 2 ^ 32) : ∃ addr, find_ram s size align 0 0 = .ok addr ∧
      (addr = NULL_PADDR ∨ Usable l al addr size) :=
  findFrom_spec hal size ha haw l RAM_SLOTS [] hl hl.length_lt hlim

/-- An address that was rounded up is aligned, even when rounding wraps. -/
theorem round_mod {k : ℕ} (hk : k < 64) (x : ℕ) : round 64 x (2 ^ k) % 2 ^ k = 0 := by
  rw [Support.round, trunc_two_pow hk (addW_lt ..)]
  exact Nat.sub_mod_eq_zero_of_mod_eq (Nat.mod_mod _ _).symm

theorem findFrom_aligned {ram : RamList} {avoid : AvoidList} {size k : ℕ} (hk : k < 64) :
    ∀ (fuel r addr : ℕ),
    findFrom ram avoid 0 (2 ^ 64 - 1) size (2 ^ k) 0 0 fuel r = .ok addr →
    addr = NULL_PADDR ∨ addr % 2 ^ k = 0
  | 0, _, _, h => by cases h
  | fuel + 1, r, addr, h => by
      rw [findFrom] at h
      split_ifs at h with hend
      · cases h; exact .inl rfl
      · obtain ⟨c, hc, h⟩ := bind_eq_ok.mp h
        cases c with
        | none => exact findFrom_aligned hk fuel (r + 1) addr h
        | some c =>
            obtain ⟨s, e⟩ := c
            dsimp only at h
            cases hfit : fitRange 0 (2 ^ 64 - 1) size (2 ^ k) 0 0 s e with
            | none =>
                rw [hfit] at h
                exact findFrom_aligned hk fuel (r + 1) addr h
            | some p =>
                rw [hfit] at h
                cases h
                refine .inr ?_
                simp only [fitRange, Nat.and_zero, ne_eq, not_true, false_and, if_false] at hfit
                split_ifs at hfit <;> cases hfit <;> exact round_mod hk s

theorem find_ram_aligned {s : RamState} {size k addr : ℕ} (hk : k < 64)
    (h : find_ram s size (2 ^ k) 0 0 = .ok addr) : addr = NULL_PADDR ∨ addr % 2 ^ k = 0 :=
  findFrom_aligned hk RAM_SLOTS 0 addr h

/-! ### `alloc_ram` at any address -/

/-- `alloc_ram(NULL_PADDR, ..)` comes back with nothing, or takes out what the search found. -/
theorem alloc_ram_found {s s' : RamState} {l al : List (Span ℕ)} (hi : s.inited = true)
    (hl : s.ram.Rep l) (hal : s.avoid.Rep al) (hlim : ∀ u ∈ l, u.hi ≤ RAM_LIMIT)
    {size align addr : ℕ} (ha : 0 < align) (haw : align < 2 ^ 32)
    (h : alloc_ram NULL_PADDR size align s = .ok (addr, s')) :
    find_ram s size align 0 0 = .ok addr ∧ (addr = NULL_PADDR ∧ s' = s ∨
      addr ≠ NULL_PADDR ∧ Usable l al addr size ∧ addr + size < 2 ^ 64 ∧
        allocAt addr size s = .ok s') := by
  obtain ⟨p, hp, hres⟩ := find_ram_spec hl hal hlim size ha haw
  simp only [alloc_ram, hi, not_true, if_false, if_true, hp, bind, Except.bind] at h
  by_cases hnull : p = NULL_PADDR
  · rw [if_pos hnull] at h
    cases h
    exact ⟨hnull ▸ hp, .inl ⟨rfl, rfl⟩⟩
  · have hu := hres.resolve_left hnull
    obtain ⟨u, hul, -, -, hhi⟩ := hu.inside
    rw [if_neg hnull] at h
    split_ifs at h
    obtain ⟨s₁, hs₁, h⟩ := bind_eq_ok.mp h
    cases h
    exact ⟨hp, .inr ⟨hnull, hu, hhi.trans_lt (hl.bound u hul), hs₁⟩⟩

/-- What `alloc_ram` does to the tables of `ram.c`, whether `add_sysram` was called or not. -/
theorem allocAt_tables {s s' : RamState} {l : List (Span ℕ)} (hl : s.ram.Rep l) {addr size : ℕ}
    (hw : addr + size < 2 ^ 64) (h : allocAt addr size s = .ok s') :
    s'.ram.Rep (cutAll addr (addr + size) l) ∧ s'.avoid = s.avoid ∧ s'.inited = s.inited := by
  obtain ⟨t, ht, h⟩ := bind_eq_ok.mp h
  rcases allocFrom_rep hl hw with ⟨-, he⟩ | ⟨t', ht', hR⟩
  · rw [he] at ht; cases ht
  · rw [ht'] at ht
    cases ht
    dsimp only at h
    split_ifs at h with hsys
    · obtain ⟨asinfo, -, h⟩ := bind_eq_ok.mp h
      cases h
      exact ⟨hR, rfl, rfl⟩
    · cases h
      exact ⟨hR, rfl, rfl⟩

theorem allocAt_secure {s s' : RamState} {addr size : ℕ} (h : allocAt addr size s = .ok s') :
    s'.secure_system = s.secure_system := by
  obtain ⟨t, -, h⟩ := bind_eq_ok.mp h
  dsimp only at h
  split_ifs at h
  · obtain ⟨asinfo, -, h⟩ := bind_eq_ok.mp h
    cases h
    rfl
  · cases h
    rfl

end Startup
