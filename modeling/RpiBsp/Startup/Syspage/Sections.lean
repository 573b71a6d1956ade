import RpiBsp.Startup.Syspage.Frame

/-!
# Startup — Syspage — sections

What the code that keeps tables in the sections needs to know of them: a section holds a list of
bytes, growing it adds zeros to the list, and writing inside it changes nothing else.

* `Limited` — a page of 2 GiB at most, so that sizes do not wrap.
* `Limited.grow` — a section grows, or the page overflows and startup ends.
* `Limited.room` — a section is grown unless there is room in it.
* `Limited.write` — bytes of a section are replaced.
* `Limited.set` — a fixed section is put in front of the growing ones.
* `InitPage.spec` — the tables are zeros to begin with.
* `PageStep.limited` — the other calls on the page leave the tables as they are, with zeros added.
-/

namespace Startup

open Support

/-- The sections of `struct local_syspage` behind the header. -/
inductive Sect where
  | system_private
  | asinfo
  | hwinfo
  | cpuinfo
  | cacheattr
  | qtime
  | callout
  | typed_strings
  | strings
  | intrinfo
  | smp
  | hypinfo
  | cluster
  | aarch64_gic_map
  | aarch64_gicr_map
  | aarch64_idreg_dump
deriving DecidableEq, Repr

instance : Fintype Sect where
  elems := {.system_private, .asinfo, .hwinfo, .cpuinfo, .cacheattr, .qtime, .callout,
    .typed_strings,
    .strings, .intrinfo, .smp, .hypinfo, .cluster, .aarch64_gic_map, .aarch64_gicr_map,
    .aarch64_idreg_dump}
  complete i := by cases i <;> decide

/-! ### The bytes of a section -/

section Bytes

variable {ι : Type}

/-- The bytes of a section are `l`. -/
structure HasBytes (s : Syspage ι) (k : ι) (l : List UInt8) : Prop where
  size : s.size (some k) = l.length
  holds : Holds s.mem (s.p (some k)) l

theorem HasBytes.of_frame {s s' : Syspage ι} {k : ι} {l : List UInt8} (h : HasBytes s k l)
    (hsize : s'.size (some k) = s.size (some k))
    (hmem : ∀ o < s.size (some k), s'.mem (s'.p (some k) + o) = s.mem (s.p (some k) + o)) :
    HasBytes s' k l where
  size := hsize.trans h.size
  holds o ho := by
    rw [hmem o (by rw [h.size]; exact ho)]
    exact h.holds o ho

/-- A section that has grown. -/
theorem HasBytes.of_zeros {s s' : Syspage ι} {k : ι} {l : List UInt8} {n : ℕ} (h : HasBytes s k l)
    (hsize : s'.size (some k) = s.size (some k) + n)
    (hmem : ∀ o < s.size (some k), s'.mem (s'.p (some k) + o) = s.mem (s.p (some k) + o))
    (hzero : ∀ o, s.size (some k) ≤ o → o < s'.size (some k) → s'.mem (s'.p (some k) + o) = 0) :
    HasBytes s' k (l ++ List.replicate n 0) where
  size := by rw [hsize, h.size, List.length_append, List.length_replicate]
  holds := by
    refine holds_append.mpr ⟨fun o ho => ?_, fun o ho => ?_⟩
    · rw [hmem o (by rw [h.size]; exact ho)]
      exact h.holds o ho
    · rw [List.length_replicate] at ho
      rw [Nat.add_assoc,
        hzero (l.length + o) (by rw [h.size]; omega) (by rw [hsize, h.size]; omega),
        List.getElem_replicate]

end Bytes

/-! ### Pages whose sizes do not wrap -/

variable {ι : Type} [Fintype ι] [DecidableEq ι] {L : Layout}

/-- The page is well formed and small. -/
structure Limited (L : Layout) (s : Syspage ι) : Prop where
  packed : Packed L s
  max : s.max_size L ≤ 2 ^ 31
  fits : s.total_size L ≤ 2 ^ 31

omit [DecidableEq ι] in
theorem Limited.size_le {s : Syspage ι} (h : Limited L s) (k : ι) : s.size (some k) ≤ 2 ^ 31 := by
  have hb := h.packed.below (some k)
  have ha := h.packed.base_le (some k)
  have hf := h.fits
  omega

omit [DecidableEq ι] in
theorem HasBytes.length_le {s : Syspage ι} {k : ι} {l : List UInt8} (hb : HasBytes s k l)
    (h : Limited L s) : l.length ≤ 2 ^ 31 := hb.size ▸ h.size_le k

theorem round_eight {add : ℕ} (h : add ≤ 2 ^ 31 - 8) : round 64 add 8 = (add + 7) / 8 * 8 :=
  round_two_pow (k := 3) (by decide) (by omega)

theorem Grown.refl {s : Syspage ι} (h : Packed L s) (k : Option ι) : Grown L k 0 s s where
  p i := by simp
  size i := by simp
  low _ _ _ := rfl
  zero _ _ _ := by omega
  high _ _ _ := rfl
  patch := by simp
  base := rfl
  total := rfl
  max := rfl
  fixed := rfl
  room := h.room

omit [Fintype ι] in
/-- A section that has grown is within the limit. -/
theorem Grown.total_le {s s' : Syspage ι} {k : Option ι} {n add : ℕ} (g : Grown L k n s s')
    (hpos : 0 < add) (hn : round 64 add 8 = n) (hwrap : s.total_size L + n < 2 ^ 32)
    (hs' : grow_syspage_section L k add s = .ok s') : s'.total_size L ≤ s.max_size L := by
  rw [g.total]
  rw [grow_syspage_section, if_pos hpos] at hs'
  dsimp only at hs'
  split at hs'
  · cases hs'
  case isFalse hle =>
    rw [hn, Nat.mod_eq_of_lt (by omega), addW_of_lt hwrap] at hle
    omega

/-- **Growing**: the page overflows, or the section has as many zeros more, rounded up to 8, and no
other section is changed. -/
theorem Limited.grow (hL : L.Valid) {s : Syspage ι} (h : Limited L s) (k : Option ι) {add : ℕ}
    (hadd : add ≤ 2 ^ 31 - 8) :
    grow_syspage_section L k add s = .error .syspage_overflow ∨
    ∃ s', grow_syspage_section L k add s = .ok s' ∧ Limited L s' ∧
      Grown L k ((add + 7) / 8 * 8) s s' ∧
      (∀ i l, some i ≠ k → HasBytes s i l → HasBytes s' i l) ∧
      ∀ i l, k = some i → HasBytes s i l →
        HasBytes s' i (l ++ List.replicate ((add + 7) / 8 * 8) 0) := by
  rcases Nat.eq_zero_or_pos add with rfl | hpos
  · refine .inr ⟨s, by rw [grow_syspage_section, if_neg (Nat.lt_irrefl 0)], h, .refl h.packed k,
      fun _ _ _ hb => hb, fun _ _ _ hb => ?_⟩
    simpa using hb
  have hn := round_eight hadd
  have hfits := h.fits
  have hwrap : s.total_size L + round 64 add 8 < 2 ^ 32 := by rw [hn]; omega
  cases hs' : grow_syspage_section L k add s with
  | error e =>
      refine .inl ?_
      rw [grow_syspage_section, if_pos hpos] at hs'
      dsimp only at hs'
      split at hs'
      · rw [← hs']
      · cases hs'
  | ok s' =>
      refine .inr ⟨s', rfl, ?_⟩
      have hg := grow_spec hL h.packed hpos hwrap hs'
      have hf := hg.framed hL h.packed
      have hmax := hg.total_le hpos rfl hwrap hs'
      have hm := h.max
      rw [hn] at hg
      refine ⟨⟨hg.packed h.packed (by omega), by rw [hg.max]; exact hm, hmax.trans hm⟩, hg,
        fun i l hi hb => ?_, ?_⟩
      · exact hb.of_frame (hg.size_of_ne hi) (hf.kept i)
      · rintro i l rfl hb
        exact hb.of_zeros hg.size_self (hf.kept i) (hf.zero (some i))

/-- A call that came back did not overflow. -/
theorem Limited.grown (hL : L.Valid) {s s' : Syspage ι} (h : Limited L s) {k : Option ι} {add : ℕ}
    (hadd : add ≤ 2 ^ 31 - 8) (hs' : grow_syspage_section L k add s = .ok s') :
    Limited L s' ∧ Grown L k ((add + 7) / 8 * 8) s s' ∧
      (∀ i l, some i ≠ k → HasBytes s i l → HasBytes s' i l) ∧
      ∀ i l, k = some i → HasBytes s i l →
        HasBytes s' i (l ++ List.replicate ((add + 7) / 8 * 8) 0) := by
  rcases h.grow hL k hadd with herr | ⟨s'', hok, hspec⟩
  · rw [hs'] at herr
    cases herr
  · rw [hs'] at hok
    cases hok
    exact hspec

/-- A page that has grown is within its limit, and the limit stays. -/
theorem Limited.grow_sizes (hL : L.Valid) {s s' : Syspage ι} (h : Limited L s) {k : Option ι}
    {add : ℕ} (hadd : add ≤ 2 ^ 31 - 8) (hs' : grow_syspage_section L k add s = .ok s') :
    s'.max_size L = s.max_size L ∧
    (s'.total_size L = s.total_size L ∨ s'.total_size L ≤ s.max_size L) := by
  rcases Nat.eq_zero_or_pos add with rfl | hpos
  · cases hs'
    exact ⟨rfl, .inl rfl⟩
  · have hn := round_eight hadd
    have hfits := h.fits
    have hg := (h.grown hL hadd hs').2.1
    exact ⟨hg.max, .inr (hg.total_le hpos hn (by omega) hs')⟩

/-- **Room** behind the bytes of a table: a section is grown unless it has enough zeros. -/
theorem Limited.room (hL : L.Valid) {s : Syspage ι} (h : Limited L s) {k : ι}
    {l : List UInt8} {n : ℕ} (hb : HasBytes s k (l ++ List.replicate n 0)) {need add : ℕ}
    (hadd : n < need → need ≤ n + add ∧ add ≤ 2 ^ 31 - 8) :
    let grown := if n < need then grow_syspage_section L (some k) add s else .ok s
    grown = .error .syspage_overflow ∨ ∃ s₁ n₁, grown = .ok s₁ ∧ Limited L s₁ ∧
      HasBytes s₁ k (l ++ List.replicate n₁ 0) ∧ need ≤ n₁ ∧ n ≤ n₁ ∧ s₁.p (some k) = s.p (some k) ∧
      ∀ i l, i ≠ k → HasBytes s i l → HasBytes s₁ i l := by
  intro grown
  by_cases hroom : n < need
  · obtain ⟨hneed, hadd⟩ := hadd hroom
    have hgrown : grown = grow_syspage_section L (some k) add s := if_pos hroom
    rw [hgrown]
    rcases h.grow hL (some k) hadd with herr | ⟨s₁, hok, h₁, hg, hne, hself⟩
    · exact .inl herr
    · have hzeros := hself k _ rfl hb
      rw [List.append_assoc, List.replicate_append_replicate] at hzeros
      exact .inr ⟨s₁, _, hok, h₁, hzeros, by omega, by omega, hg.p_self,
        fun i l hi => hne i l (by simpa using hi)⟩
  · exact .inr ⟨s, n, if_neg hroom, h, hb, by omega, by omega, rfl, fun _ _ _ hb => hb⟩

/-- The page with bytes put into its memory. -/
def Syspage.written (s : Syspage ι) (a : ℕ) (l : List UInt8) : Syspage ι :=
  { s with mem := Support.write a l s.mem }

omit [Fintype ι] [DecidableEq ι] in
@[simp] theorem written_p (s : Syspage ι) (a : ℕ) (l : List UInt8) (i : Option ι) :
    (s.written a l).p i = s.p i := rfl

omit [Fintype ι] [DecidableEq ι] in
@[simp] theorem written_size (s : Syspage ι) (a : ℕ) (l : List UInt8) (i : Option ι) :
    (s.written a l).size i = s.size i := rfl

omit [DecidableEq ι] in
/-- The header, with the sizes, ends before the sections. -/
theorem Limited.written_sizes (hL : L.Valid) {s : Syspage ι} (h : Limited L s) {k : ι} {a : ℕ}
    (ha : s.p (some k) ≤ a) (l : List UInt8) :
    (s.written a l).total_size L = s.total_size L ∧ (s.written a l).max_size L = s.max_size L := by
  have habove := h.packed.above k
  have hhead := h.packed.header
  have hload : ∀ off, off + L.width ≤ L.spsize →
      load L.width (s.base + off) (s.written a l).mem = load L.width (s.base + off) s.mem := by
    intro off hoff
    refine load_eq fun j hj => write_outside (.inl ?_)
    omega
  exact ⟨hload _ hL.total_in, hload _ hL.size_in⟩

omit [DecidableEq ι] in
/-- **Writing** inside a section changes that part of it and nothing else. -/
theorem Limited.write (hL : L.Valid) {s : Syspage ι} (h : Limited L s) {k : ι}
    {l m m' n : List UInt8} (hb : HasBytes s k (l ++ m ++ n)) (hm : m.length = m'.length) :
    Limited L (s.written (s.p (some k) + l.length) m') ∧
      HasBytes (s.written (s.p (some k) + l.length) m') k (l ++ m' ++ n) ∧
      ∀ i l', i ≠ k → HasBytes s i l' → HasBytes (s.written (s.p (some k) + l.length) m') i l' := by
  have hsize := hb.size
  simp only [List.length_append] at hsize
  obtain ⟨htotal, hmax⟩ := h.written_sizes hL (Nat.le_add_right (s.p (some k)) l.length) m'
  have hp := h.packed
  refine ⟨⟨⟨hp.order, hp.above, ?_, hp.header, ?_, ?_, ?_, ?_⟩, ?_, ?_⟩, ⟨?_, ?_⟩,
    fun i l' hi hb' => ?_⟩
  · rw [htotal]
    exact hp.below
  · rw [htotal]
    exact hp.total
  · rw [htotal]
    exact hp.word
  · rw [htotal]
    exact hp.room
  · rw [hmax]
    exact hp.limit
  · rw [hmax]
    exact h.max
  · rw [htotal]
    exact h.fits
  · rw [written_size, hb.size]
    simp only [List.length_append, hm]
  · exact hb.holds.write rfl hm
  · have hord := hp.order (some i) (some k) (by simpa using hi)
    have hi' := hb'.size
    exact ⟨hi', hb'.holds.write_apart (by omega)⟩

/-! ### The sections at the start -/

theorem Limited.placed {s : Syspage ι} (h : Limited L s) (hb : Boundary L s) {k : Option ι}
    (hk : k ≠ none) (hempty : s.size k = 0) (n : ℕ) : Limited L (s.placed k n) where
  packed := placed_packed h.packed hb hk hempty
  max := by
    rw [Syspage.max_size, placed_base hk]
    exact h.max
  fits := by
    rw [placed_total hk]
    exact h.fits

omit [Fintype ι] in
theorem HasBytes.placed {s : Syspage ι} {k i : ι} {l : List UInt8} (h : HasBytes s i l)
    (hik : i ≠ k) (n : ℕ) : HasBytes (s.placed (some k) n) i l := by
  have hp : (s.placed (some k) n).p (some i) = s.p (some i) := by
    rw [placed_p, if_neg (by simpa using hik)]
  exact h.of_frame (placed_size s _ n _) fun o _ => by rw [hp]; rfl

/-- Section `i` is not in front of the place for the next fixed section. -/
def Behind (s : Syspage ι) (i : ι) : Prop := s.base + s.fixed_size ≤ s.p (some i)

omit [Fintype ι] in
theorem Grown.behind {s s' : Syspage ι} {k : Option ι} {n : ℕ} (g : Grown L k n s s') {i : ι}
    (h : Behind s i) : Behind s' i := by
  have hp := g.p (some i)
  rw [Behind, g.base, g.fixed, hp]
  unfold Behind at h
  split_ifs <;> omega

/-- A fixed section is put in front of the growing ones, and then it grows. -/
theorem Limited.set_eq_grow {s s' : Syspage ι} (h : Limited L s) (hb : Boundary L s) {k : ι}
    {size : ℕ} (hsize : size ≤ 2 ^ 31 - 16) (hs' : set_syspage_section L (some k) size s = .ok s') :
    grow_syspage_section L (some k) ((size + 7) / 8 * 8) (s.placed (some k) ((size + 7) / 8 * 8)) =
      .ok s' := by
  have hroom := h.packed.room
  have hfits := h.fits
  have hbelow := hb.below
  rw [set_syspage_section, round_eight (by omega)] at hs'
  dsimp only at hs'
  rwa [Nat.mod_eq_of_lt (by omega), addW_of_lt (show s.base + s.fixed_size < 2 ^ 64 by omega),
    addW_of_lt (show s.fixed_size + (size + 7) / 8 * 8 < 2 ^ 32 by omega)] at hs'

/-- **A fixed section** is set: the others keep their bytes, and those behind it stay behind. -/
theorem Limited.set (hL : L.Valid) {s s' : Syspage ι} (h : Limited L s) (hb : Boundary L s) {k : ι}
    (hempty : s.size (some k) = 0) {size : ℕ} (hsize : size ≤ 2 ^ 31 - 16)
    (hs' : set_syspage_section L (some k) size s = .ok s') :
    Limited L s' ∧ Boundary L s' ∧ (∀ i l, i ≠ k → HasBytes s i l → HasBytes s' i l) ∧
      ∀ i, i ≠ k → Behind s i → Behind s' i := by
  have hfits := h.fits
  have hb' := (set_spec hL h.packed hb hempty (by omega) (by rw [round_eight (by omega)]; omega)
    hs').2.1
  have hgrow := h.set_eq_grow hb hsize hs'
  set n := (size + 7) / 8 * 8
  obtain ⟨h', g, hne, _⟩ :=
    (h.placed (k := some k) hb (by rintro ⟨⟩) hempty n).grown hL (by omega) hgrow
  refine ⟨h', hb', fun i l hi hbytes => hne i l (by simpa using hi) (hbytes.placed hi _),
    fun i hi hbehind => ?_⟩
  have hne' : some i ≠ some k := by simpa using hi
  have hp := g.p_of_ne hne'
  have hn : (n + 7) / 8 * 8 = n := by omega
  simp only [placed_p, placed_size, if_pos, if_neg hne', hempty, hn] at hp
  rw [Behind, g.base, g.fixed, placed_base (k := some k) (by rintro ⟨⟩), hp]
  change s.base + (s.fixed_size + n) ≤ _
  unfold Behind at hbehind
  split_ifs <;> omega

/-- A page in which a fixed section is set is within its limit, and the limit stays. -/
theorem Limited.set_sizes (hL : L.Valid) {s s' : Syspage ι} (h : Limited L s)
    (hb : Boundary L s) {k : ι}
    (hempty : s.size (some k) = 0) {size : ℕ} (hsize : size ≤ 2 ^ 31 - 16)
    (hs' : set_syspage_section L (some k) size s = .ok s') :
    s'.max_size L = s.max_size L ∧
    (s'.total_size L = s.total_size L ∨ s'.total_size L ≤ s.max_size L) := by
  have hk : (some k : Option ι) ≠ none := by rintro ⟨⟩
  have hgrow := h.set_eq_grow hb hsize hs'
  have hmax : (s.placed (some k) ((size + 7) / 8 * 8)).max_size L = s.max_size L := by
    rw [Syspage.max_size, placed_base hk]
    rfl
  have htotal : (s.placed (some k) ((size + 7) / 8 * 8)).total_size L = s.total_size L :=
    placed_total hk
  rw [← hmax, ← htotal]
  exact (h.placed hb hk hempty _).grow_sizes hL (by omega) hgrow

/-- The calls of `init_syspage_memory` and `cpu_init_syspage_memory` that set up sections: `callout`
and `gic_map` are the sizes of the fixed ones, and `prefix_size` that of `struct hwi_prefix`. -/
def init_sections (L : Layout) (callout gic_map prefix_size : ℕ) (s : Syspage Sect) :
    Except Crash (Syspage Sect) := do
  let s ← set_syspage_section L (some .callout) callout s
  let s ← grow_syspage_section L (some .typed_strings) 4 s
  let s ← grow_syspage_section L (some .strings) 1 s
  let s ← grow_syspage_section L (some .hwinfo) prefix_size s
  set_syspage_section L (some .aarch64_gic_map) gic_map s

omit [DecidableEq ι] in
/-- The page when it is new. -/
theorem init_limited (hL : L.Valid) (hsp : L.spsize ≤ 2 ^ 31) {base max_size : ℕ}
    (hroom : base + L.spsize < 2 ^ 64) (hmax : base + max_size < 2 ^ 64) (hlim : max_size ≤ 2 ^ 31)
    (s : Syspage ι) : Limited L (init_syspage_memory L base max_size s) := by
  have hp := (init_packed hL hroom hmax s).1
  refine ⟨hp, ?_, ?_⟩
  · change load L.width (base + L.size_off) (store L.width (base + L.size_off) max_size _) ≤ _
    rw [load_store]
    exact (Nat.mod_le _ _).trans hlim
  · have hempty : ∀ i : ι, (init_syspage_memory L base max_size s).size (some i) = 0 := fun _ => rfl
    have hnone : (init_syspage_memory L base max_size s).size none = L.spsize := rfl
    rw [hp.total, Fintype.sum_option, hnone]
    simpa [hempty] using hsp

/-- A growing section is behind the fixed ones, and leaves room for more of them. -/
theorem Grown.boundary_of_behind (hL : L.Valid) {s s' : Syspage ι} {k : ι} {n : ℕ} (h : Limited L s)
    (g : Grown L (some k) n s s') (hb : Boundary L s) (hk : Behind s k) : Boundary L s' := by
  have hpos := hL.pos
  have hhead := h.packed.header
  exact g.boundary hb (by omega) hk

/-- A page that `init_syspage_memory` has set up, of 2 GiB at most. -/
structure InitPage (L : Layout) (prefix_size : ℕ) (s : Syspage Sect) : Prop where
  intro ::
  set_up : ∃ base max_size callout gic_map s₀,
    base + L.spsize < 2 ^ 64 ∧ base + max_size < 2 ^ 64 ∧ max_size ≤ 2 ^ 31 ∧
    callout ≤ 2 ^ 31 - 16 ∧ gic_map ≤ 2 ^ 31 - 16 ∧
    init_sections L callout gic_map prefix_size (init_syspage_memory L base max_size s₀) = .ok s

/-- **The tables at the start** are zeros. -/
theorem InitPage.spec (hL : L.Valid) (hsp : L.spsize ≤ 2 ^ 31) {prefix_size : ℕ}
    (hp : prefix_size ≤ 2 ^ 31 - 8) {s : Syspage Sect} (hs : InitPage L prefix_size s) :
    Limited L s ∧ HasBytes s .typed_strings (List.replicate 8 0) ∧
      HasBytes s .strings (List.replicate 8 0) ∧
      HasBytes s .hwinfo (List.replicate ((prefix_size + 7) / 8 * 8) 0) ∧
      s.total_size L ≤ s.max_size L := by
  obtain ⟨base, max_size, callout, gic_map, s₀, hroom, hmax, hlim, hc, hg, hs⟩ := hs.set_up
  have h₁ := init_limited hL hsp hroom hmax hlim s₀
  have hb₁ := (init_packed hL hroom hmax s₀).2
  set s₁ := init_syspage_memory L base max_size s₀
  have hempty : ∀ i : Sect, HasBytes s₁ i [] := fun i => ⟨rfl, .nil _ _⟩
  have hbehind₁ : ∀ i : Sect, Behind s₁ i := fun i => by
    rw [Behind, show s₁.p (some i) = base + L.spsize from addW_of_lt hroom]
    exact Nat.le_refl _
  obtain ⟨s₂, hs₂, hs⟩ := bind_eq_ok.mp hs
  obtain ⟨s₃, hs₃, hs⟩ := bind_eq_ok.mp hs
  obtain ⟨s₄, hs₄, hs⟩ := bind_eq_ok.mp hs
  obtain ⟨s₅, hs₅, hs⟩ := bind_eq_ok.mp hs
  obtain ⟨h₂, hb₂, hne₂, hbehind₂⟩ := h₁.set hL hb₁ rfl hc hs₂
  obtain ⟨h₃, g₃, hne₃, hself₃⟩ := h₂.grown hL (by omega) hs₃
  obtain ⟨h₄, g₄, hne₄, hself₄⟩ := h₃.grown hL (by omega) hs₄
  obtain ⟨h₅, g₅, hne₅, hself₅⟩ := h₄.grown hL hp hs₅
  -- Every section but the first is behind the fixed ones until the end.
  have hbehind : ∀ i : Sect, i ≠ .callout → Behind s₂ i := fun i hi => hbehind₂ i hi (hbehind₁ i)
  have hb₃ := g₃.boundary_of_behind hL h₂ hb₂ (hbehind _ nofun)
  have hb₄ := g₄.boundary_of_behind hL h₃ hb₃ (g₃.behind (hbehind _ nofun))
  have hb₅ := g₅.boundary_of_behind hL h₄ hb₄ (g₄.behind (g₃.behind (hbehind _ nofun)))
  have hgic : HasBytes s₅ .aarch64_gic_map [] :=
    hne₅ _ _ nofun (hne₄ _ _ nofun (hne₃ _ _ nofun (hne₂ _ _ nofun (hempty _))))
  obtain ⟨h₆, _, hne₆, _⟩ := h₅.set hL hb₅ hgic.size hg hs
  have hzeros : HasBytes s₅ .typed_strings (List.replicate 8 0) ∧
      HasBytes s₅ .strings (List.replicate 8 0) ∧
      HasBytes s₅ .hwinfo (List.replicate ((prefix_size + 7) / 8 * 8) 0) := by
    refine ⟨?_, ?_, ?_⟩
    · exact hne₅ _ _ nofun (hne₄ _ _ nofun (hself₃ _ _ rfl (hne₂ _ _ nofun (hempty _))))
    · exact hne₅ _ _ nofun (hself₄ _ _ rfl (hne₃ _ _ nofun (hne₂ _ _ nofun (hempty _))))
    · exact hself₅ _ _ rfl (hne₄ _ _ nofun (hne₃ _ _ nofun (hne₂ _ _ nofun (hempty _))))
  refine ⟨h₆, hne₆ _ _ nofun hzeros.1, hne₆ _ _ nofun hzeros.2.1, hne₆ _ _ nofun hzeros.2.2, ?_⟩
  -- The first section that grows checks the limit, and it stays checked.
  have htotal₃ : s₃.total_size L ≤ s₂.max_size L :=
    g₃.total_le (by decide) (round_eight (by decide)) (by have := h₂.fits; omega) hs₃
  have hsizes₃ := (h₂.grow_sizes hL (by omega) hs₃).1
  have hsizes₄ := h₃.grow_sizes hL (by omega) hs₄
  have hsizes₅ := h₄.grow_sizes hL hp hs₅
  have hsizes₆ := h₅.set_sizes hL hb₅ hgic.size hg hs
  omega

/-! ### The other calls on the page -/

/-- The call sets no section, and a page it moves to is one of 2 GiB at most. -/
def SysCall.Within : SysCall ι → Prop
  | .grow _ _ | .register _ _ _ => True
  | .set _ _ => False
  | .reloc _ max_size => max_size ≤ 2 ^ 31

/-- One of the calls between those on a table: a section grows, the page moves, or an address is
registered. -/
inductive PageStep (L : Layout) (s s' : Syspage ι) : Prop where
  | intro (c : SysCall ι) (within : c.Within) (legal : c.Legal L s) (nowrap : c.NoWrap L s)
      (run : c.run L s = .ok s') : PageStep L s s'

omit [Fintype ι] [DecidableEq ι] in
theorem Framed.hasBytes {s s' : Syspage ι} (h : Framed L s s') {i : ι} {l : List UInt8}
    (hb : HasBytes s i l) : ∃ n, HasBytes s' i (l ++ List.replicate n 0) := by
  have hlong := h.longer (some i)
  exact ⟨s'.size (some i) - s.size (some i), hb.of_zeros (by omega) (h.kept i) (h.zero (some i))⟩

/-- The page stays within its limit. -/
theorem PageStep.total_le (hL : L.Valid) {s s' : Syspage ι} (hstep : PageStep L s s')
    (h : Limited L s) :
    s'.total_size L = s.total_size L ∨ s'.total_size L ≤ s.max_size L := by
  obtain ⟨c, hwithin, hlegal, hwrap, hrun⟩ := hstep
  cases c with
  | set => exact hwithin.elim
  | grow k add =>
      rcases Nat.eq_zero_or_pos add with rfl | hpos
      · cases hrun
        exact .inl rfl
      · exact .inr ((grow_spec hL h.packed hpos hwrap hrun).total_le hpos rfl hwrap hrun)
  | reloc base max_size =>
      have hp' := (SysCall.run_packed hL h.packed (c := .reloc base max_size) (fun hc => hc.elim)
        hlegal hwrap hrun).1
      cases hrun
      refine .inl ?_
      rw [hp'.total, h.packed.total]
      rfl
  | register rp data patched =>
      cases hrun
      refine .inl ?_
      simp only [callout_register_data]
      split_ifs <;> rfl

theorem PageStep.limited (hL : L.Valid) {s s' : Syspage ι} (hstep : PageStep L s s')
    (h : Limited L s) :
    Limited L s' ∧ ∀ i l, HasBytes s i l → ∃ n, HasBytes s' i (l ++ List.replicate n 0) := by
  have htotal := hstep.total_le hL h
  have hmax := h.max
  have hfits := h.fits
  obtain ⟨c, hwithin, hlegal, hwrap, hrun⟩ := hstep
  have hset : ¬ c.IsSet := by
    cases c with
    | set => exact hwithin.elim
    | grow | reloc | register => exact id
  obtain ⟨hp', hf, _⟩ := SysCall.run_packed hL h.packed (fun hc => absurd hc hset) hlegal hwrap hrun
  refine ⟨⟨hp', ?_, by omega⟩, fun i l hb => hf.hasBytes hb⟩
  cases c with
  | set => exact hwithin.elim
  | grow k add =>
      rcases Nat.eq_zero_or_pos add with rfl | hpos
      · cases hrun
        exact hmax
      · rw [(grow_spec hL h.packed hpos hwrap hrun).max]
        exact hmax
  | reloc base max_size =>
      cases hrun
      change load L.width ((reloc_syspage_memory L base max_size s).base + L.size_off)
        (store L.width ((reloc_syspage_memory L base max_size s).base + L.size_off) max_size _) ≤ _
      rw [load_store]
      exact (Nat.mod_le _ _).trans hwithin
  | register rp data patched =>
      cases hrun
      simp only [callout_register_data]
      split_ifs <;> exact hmax

end Startup
