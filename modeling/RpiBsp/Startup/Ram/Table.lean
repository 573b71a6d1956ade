import RpiBsp.Startup.Ram.Definitions
import RpiBsp.Support.Span

/-!
# Startup — RAM — the table as a list of spans

`RamList.Rep t l` says that the slots of `t` up to the first of size 0 are the spans `l`, and that
`ram_list_size` counts them and the end.  Under it

* `add_mem` is `unite` (`add_mem_spec`): the insertion by `memmove` is `place`, and the loop that
  steps its cursor back is `absorb`;
* the loop of `alloc_ram` is `cutAll` (`allocFrom_spec`), the entry it splits through `add_mem`
  included.

Both come back unless the table is full.
-/

namespace Startup

open Support

/-- The entry that stores a span. -/
def enc (s : Span ℕ) : RamEntry := ⟨s.lo, s.hi - s.lo⟩

/-- The table holds the spans `l`, then its end, and `ram_list_size` says so. -/
structure RamList.Rep (t : RamList) (l : List (Span ℕ)) : Prop where
  holds : ∃ z : RamEntry, z.size = 0 ∧ Holds t.slots 0 (l.map enc ++ [z])
  size : t.ram_list_size = (l.length + 1) * ENTRY_SIZE
  room : t.ram_list_size ≤ MAX_RAM_LIST_SIZE
  normal : Normal l
  bound : ∀ s ∈ l, s.hi < 2 ^ 64

/-- The part of `Rep` that the loops keep while the list is not yet normal. -/
structure RamList.Raw (t : RamList) (l : List (Span ℕ)) : Prop where
  holds : ∃ z : RamEntry, z.size = 0 ∧ Holds t.slots 0 (l.map enc ++ [z])
  size : t.ram_list_size = (l.length + 1) * ENTRY_SIZE
  proper : ∀ s ∈ l, s.lo < s.hi ∧ s.hi < 2 ^ 64

theorem RamList.Rep.raw {t : RamList} {l : List (Span ℕ)} (h : t.Rep l) : t.Raw l :=
  ⟨h.holds, h.size, fun s hs => ⟨h.normal.proper s hs, h.bound s hs⟩⟩

/-- Whether a table represents a list depends on the table only through `Raw`. -/
theorem RamList.Raw.rep {t t' : RamList} {l : List (Span ℕ)} (h' : t'.Raw l) (h : t.Rep l) :
    t'.Rep l :=
  ⟨h'.holds, h'.size, by rw [h'.size, ← h.size]; exact h.room, h.normal, h.bound⟩

theorem RamList.Rep.length_lt {t : RamList} {l : List (Span ℕ)} (h : t.Rep l) :
    l.length < RAM_SLOTS := by
  have h₁ := h.size
  have h₂ := h.room
  simp only [ENTRY_SIZE, MAX_RAM_LIST_SIZE, RAM_SLOTS] at *
  omega

namespace RamList.Raw

variable {t : RamList} {l m : List (Span ℕ)} {s : Span ℕ}

theorem slot (h : t.Raw (l ++ s :: m)) {r : ℕ} (hr : r = l.length) : t.slots r = enc s := by
  obtain ⟨z, -, hz⟩ := h.holds
  rw [List.map_append, List.map_cons, List.append_assoc] at hz
  exact hz.cell (by simp [hr])

theorem slot_end (h : t.Raw l) {r : ℕ} (hr : r = l.length) : (t.slots r).size = 0 := by
  obtain ⟨z, hz, hh⟩ := h.holds
  rw [hh.cell (by simp [hr]), hz]

theorem at_ (h : t.Raw (l ++ s :: m)) : s.lo < s.hi ∧ s.hi < 2 ^ 64 := h.proper s (by simp)

theorem insert (h : t.Raw (l ++ m)) {r : ℕ} (hr : r = l.length)
    (hs : s.lo < s.hi ∧ s.hi < 2 ^ 64) :
    RamList.Raw
      ⟨Function.update
        (memmove (r + 1) r ((t.ram_list_size - r * ENTRY_SIZE) / ENTRY_SIZE) t.slots) r (enc s),
        t.ram_list_size + ENTRY_SIZE⟩ (l ++ s :: m) := by
  obtain ⟨z, hz, hh⟩ := h.holds
  have hsz := h.size
  refine ⟨⟨z, hz, ?_⟩, ?_, fun u hu => ?_⟩
  · rw [List.map_append, List.append_assoc] at hh
    rw [List.map_append, List.map_cons, List.append_assoc]
    refine hh.insert (by simp [hr]) ?_
    simp only [hsz, ENTRY_SIZE, List.length_append, List.length_map, List.length_singleton]
    omega
  · simp only [hsz, ENTRY_SIZE, List.length_append, List.length_cons]; omega
  · rcases List.mem_append.mp hu with hu | hu
    · exact h.proper u (by simp [hu])
    · rcases List.mem_cons.mp hu with rfl | hu
      · exact hs
      · exact h.proper u (by simp [hu])

theorem erase (h : t.Raw (l ++ s :: m)) {r : ℕ} (hr : r = l.length) :
    RamList.Raw
      ⟨memmove r (r + 1) ((t.ram_list_size - (r + 1) * ENTRY_SIZE) / ENTRY_SIZE) t.slots,
        t.ram_list_size - ENTRY_SIZE⟩ (l ++ m) := by
  obtain ⟨z, hz, hh⟩ := h.holds
  have hsz := h.size
  refine ⟨⟨z, hz, ?_⟩, ?_, fun u hu => h.proper u ?_⟩
  · rw [List.map_append, List.map_cons, List.append_assoc, List.cons_append] at hh
    rw [List.map_append, List.append_assoc]
    refine hh.erase (by simp [hr]) ?_
    simp only [hsz, ENTRY_SIZE, List.length_append, List.length_cons, List.length_map,
      List.length_nil]
    omega
  · simp only [hsz, ENTRY_SIZE, List.length_append, List.length_cons]; omega
  · rcases List.mem_append.mp hu with hu | hu <;> simp [hu]

theorem replace {u : Span ℕ} (h : t.Raw (l ++ s :: m)) {r : ℕ} (hr : r = l.length)
    (hu : u.lo < u.hi ∧ u.hi < 2 ^ 64) :
    RamList.Raw ⟨Function.update t.slots r (enc u), t.ram_list_size⟩ (l ++ u :: m) := by
  obtain ⟨z, hz, hh⟩ := h.holds
  refine ⟨⟨z, hz, ?_⟩, by simpa using h.size, fun v hv => ?_⟩
  · rw [List.map_append, List.map_cons, List.append_assoc] at hh ⊢
    exact hh.replace (by simp [hr])
  · rcases List.mem_append.mp hv with hv | hv
    · exact h.proper v (by simp [hv])
    · rcases List.mem_cons.mp hv with rfl | hv
      · exact hu
      · exact h.proper v (by simp [hv])

end RamList.Raw

theorem addW_enc {s : Span ℕ} (h : s.lo < s.hi ∧ s.hi < 2 ^ 64) :
    addW 64 (enc s).addr (enc s).size = s.hi := by
  simp only [enc]
  rw [addW_of_lt (by omega)]; omega

theorem enc_size_ne {s : Span ℕ} (h : s.lo < s.hi) : (enc s).size ≠ 0 := by
  simp only [enc]; omega

/-! ### `add_mem` is `unite` -/

/-- The merge loop, standing on the entry after `p` with the entries before `p` done. -/
theorem mergeFrom_spec : ∀ (m : List (Span ℕ)) (fuel : ℕ) (t : RamList) (l : List (Span ℕ))
    (p : Span ℕ), t.Raw (l ++ p :: m) → Ascending (p :: m) → m.length < fuel →
    ∃ t', mergeFrom fuel t (l.length + 1) = .ok t' ∧ t'.Raw (l ++ absorb p m)
  | [], fuel + 1, t, l, p, h, _, _ => by
      refine ⟨t, ?_, h⟩
      rw [mergeFrom, if_pos (h.slot_end (by simp))]
  | s :: m, fuel + 1, t, l, p, h, ha, hf => by
      have h' : t.Raw ((l ++ [p]) ++ s :: m) := by simpa using h
      have hs := h'.at_
      have hp := h.at_
      have hps : p.lo ≤ s.lo := (ascending_cons.mp ha).2.1 s (by simp)
      have hf' : m.length < fuel := by simpa using hf
      have hr : l.length + 1 = (l ++ [p]).length := by simp
      rw [mergeFrom, h'.slot hr, h.slot (Nat.add_sub_cancel ..), if_neg (enc_size_ne hs.1)]
      simp only [addW_enc hp, addW_enc hs, absorb]
      by_cases hm : s.lo ≤ p.hi
      · -- The two are joined: entry `r` goes, entry `r - 1` ends at the further end.
        have he : (if p.hi < s.hi then s.hi else p.hi) = max p.hi s.hi := by
          rcases lt_or_ge p.hi s.hi with h | h
          · rw [if_pos h, max_eq_right h.le]
          · rw [if_neg (not_lt.mpr h), max_eq_left h]
        have h₁ := h'.erase hr
        rw [List.append_assoc, List.singleton_append] at h₁
        have hj : (⟨p.lo, max p.hi s.hi⟩ : Span ℕ).lo < max p.hi s.hi ∧
            max p.hi s.hi < 2 ^ 64 := ⟨lt_max_of_lt_left hp.1, max_lt hp.2 hs.2⟩
        have h₂ := h₁.replace (u := ⟨p.lo, max p.hi s.hi⟩) rfl hj
        have hprev := h₁.slot rfl
        simp only at hprev
        obtain ⟨t', ht', hR⟩ := mergeFrom_spec m fuel _ l _ h₂ ha.join hf'
        refine ⟨t', ?_, by rwa [if_pos hm]⟩
        rw [if_pos (show (enc s).addr ≤ p.hi from hm)]
        simp only [he, hprev, Nat.add_sub_cancel]
        rw [← ht', show (enc p).addr = p.lo from rfl, subW_of_le (by omega) hj.2]
        rfl
      · have hm' : ¬ (enc s).addr ≤ p.hi := hm
        obtain ⟨t', ht', hR⟩ := mergeFrom_spec m fuel t (l ++ [p]) s h'
          (ascending_cons.mp ha).2.2 hf'
        refine ⟨t', ?_, by simpa [if_neg hm] using hR⟩
        rw [if_neg hm', ← ht', List.length_append, List.length_singleton]

/-- The search loop stops after the entries that do not start after `start`. -/
theorem insertAt_spec (t : RamList) (start : ℕ) : ∀ (m : List (Span ℕ)) (fuel : ℕ)
    (l : List (Span ℕ)), t.Raw (l ++ m) → m.length < fuel →
    insertAt t start fuel l.length =
      .ok (l ++ m.takeWhile (fun s => s.lo ≤ start)).length
  | [], fuel + 1, l, h, _ => by
      rw [insertAt, if_pos (h.slot_end (by simp))]; simp
  | s :: m, fuel + 1, l, h, hf => by
      rw [insertAt, h.slot rfl, if_neg (enc_size_ne h.at_.1)]
      by_cases hs : start < s.lo
      · rw [if_pos (show start < (enc s).addr from hs)]
        simp [not_le.mpr hs]
      · rw [if_neg (show ¬ start < (enc s).addr from hs)]
        have := insertAt_spec t start m fuel (l ++ [s]) (by simpa using h) (by simpa using hf)
        rw [List.length_append, List.length_singleton] at this
        rw [this]; simp [not_lt.mp hs]

/-- **`add_mem` is `unite`**, unless it has no slot left. -/
theorem add_mem_spec {t : RamList} {l : List (Span ℕ)} (h : t.Rep l) {start size : ℕ}
    (hs : 0 < size) (hw : start + size < 2 ^ 64) :
    (MAX_RAM_LIST_SIZE - ENTRY_SIZE < t.ram_list_size ∧
      add_mem start size t = .error .ram_overflow) ∨
    ∃ t', add_mem start size t = .ok t' ∧ t'.Rep (unite ⟨start, start + size⟩ l) := by
  set p : Span ℕ := ⟨start, start + size⟩ with hp
  have hpp : p.lo < p.hi := by simp only [hp]; omega
  have hi := insertAt_spec t start l RAM_SLOTS [] h.raw h.length_lt
  rw [List.nil_append, List.length_nil] at hi
  rw [add_mem, if_pos hs, hi]
  by_cases hfull : MAX_RAM_LIST_SIZE - ENTRY_SIZE < t.ram_list_size
  · refine .inl ⟨hfull, ?_⟩
    simp [bind, Except.bind, hfull, throw, throwThe, MonadExceptOf.throw]
  · refine .inr ?_
    set a := l.takeWhile (fun s => s.lo ≤ start) with ha
    set b := l.dropWhile (fun s => s.lo ≤ start) with hb
    have hab : l = a ++ b := (List.takeWhile_append_dropWhile ..).symm
    have hraw : t.Raw (a ++ b) := hab ▸ h.raw
    have h₁ := hraw.insert (s := p) rfl ⟨hpp, hw⟩
    have hplace : place p l = a ++ p :: b := place_eq p l
    have hasc := place_ascending hpp h.normal.ascending
    have hlen : l.length + 2 ≤ RAM_SLOTS := by
      have := h.size
      simp only [ENTRY_SIZE, MAX_RAM_LIST_SIZE, RAM_SLOTS] at *; omega
    have hlen' : (a ++ p :: b).length = l.length + 1 := by
      rw [hab]; simp only [List.length_append, List.length_cons]; omega
    rw [← hplace] at h₁ hlen'
    have henc : enc p = ⟨start, size⟩ := by simp [enc, hp]
    cases hq : place p l with
    | nil => rw [hq] at hlen'; simp at hlen'
    | cons q m =>
        rw [hq] at h₁ hasc hlen'
        have hm : m.length < RAM_SLOTS := by simp at hlen'; omega
        obtain ⟨t', ht', hR⟩ := mergeFrom_spec m RAM_SLOTS _ [] q h₁ hasc hm
        refine ⟨t', ?_, ?_⟩
        · rw [henc] at ht'
          simpa [bind, Except.bind, hfull] using ht'
        · have hun : unite p l = absorb q m := by rw [unite, hq]; rfl
          rw [hun]
          have hlenu := length_absorb_le m q
          refine ⟨hR.holds, hR.size, ?_, absorb_normal m q hasc, fun s hs => (hR.proper s hs).2⟩
          rw [hR.size]
          simp only [List.nil_append, ENTRY_SIZE, MAX_RAM_LIST_SIZE, RAM_SLOTS] at *
          simp only [List.length_cons] at hlen'
          omega

/-! ### The loop of `alloc_ram` is `cutAll` -/

/-- The test by which `alloc_ram` picks the entry `s`.  It is true of every entry the request meets,
and of one that starts where the request ends. -/
def Hit (addr end_ : ℕ) (s : Span ℕ) : Prop :=
  (addr ≤ s.lo ∧ s.lo < end_) ∨ (s.lo ≤ addr ∧ addr < s.hi) ∨ (s.lo ≤ end_ ∧ end_ < s.hi)

instance (addr end_ : ℕ) (s : Span ℕ) : Decidable (Hit addr end_ s) :=
  inferInstanceAs (Decidable (_ ∨ _ ∨ _))

theorem apart_of_not_hit {addr end_ : ℕ} {s : Span ℕ} (h : ¬ Hit addr end_ s) :
    s.hi ≤ addr ∨ end_ ≤ s.lo := by
  simp only [Hit] at h; omega

/-- One iteration of the loop, on spans. -/
theorem allocFrom_step {addr end_ fuel : ℕ} {t : RamList} {l m : List (Span ℕ)} {s : Span ℕ}
    (h : t.Raw (l ++ s :: m)) (hae : addr ≤ end_) (hend : end_ < 2 ^ 64) :
    allocFrom addr end_ (fuel + 1) t l.length =
      if Hit addr end_ s then
        if addr ≤ s.lo ∧ s.hi ≤ end_ then
          allocFrom addr end_ fuel
            ⟨memmove l.length (l.length + 1)
              ((t.ram_list_size - (l.length + 1) * ENTRY_SIZE) / ENTRY_SIZE) t.slots,
              t.ram_list_size - ENTRY_SIZE⟩ l.length
        else if addr ≤ s.lo then
          allocFrom addr end_ fuel
            ⟨Function.update t.slots l.length (enc ⟨end_, s.hi⟩), t.ram_list_size⟩ (l.length + 1)
        else if end_ < s.hi then
          add_mem end_ (s.hi - end_)
            ⟨Function.update t.slots l.length (enc ⟨s.lo, addr⟩), t.ram_list_size⟩ >>=
            fun t => allocFrom addr end_ fuel t (l.length + 1)
        else
          allocFrom addr end_ fuel
            ⟨Function.update t.slots l.length (enc ⟨s.lo, addr⟩), t.ram_list_size⟩ (l.length + 1)
      else allocFrom addr end_ fuel t (l.length + 1) := by
  have hs := h.at_
  rw [allocFrom, h.slot rfl, if_neg (enc_size_ne hs.1)]
  simp only [addW_enc hs]
  refine if_congr Iff.rfl ?_ rfl
  have hmin : (if addr < (enc s).addr then addr else (enc s).addr) = min addr s.lo := by
    by_cases h : addr < s.lo
    · rw [if_pos (show addr < (enc s).addr from h), min_eq_left h.le]
    · rw [if_neg (show ¬ addr < (enc s).addr from h), min_eq_right (not_lt.mp h)]; rfl
  have hmax : (if s.hi < end_ then end_ else s.hi) = max s.hi end_ := by
    by_cases h : s.hi < end_
    · rw [if_pos h, max_eq_right h.le]
    · rw [if_neg h, max_eq_left (not_lt.mp h)]
  simp only [hmin, hmax]
  rcases le_or_gt addr s.lo with ha | ha
  · rw [min_eq_left ha]
    by_cases he : s.hi ≤ end_
    · rw [max_eq_right he, if_pos ⟨rfl, rfl⟩, if_pos ⟨ha, he⟩]
    · have he' : ¬ (addr = addr ∧ end_ = s.hi) := by omega
      rw [max_eq_left (by omega), if_neg he', if_pos rfl, if_neg (by omega), if_pos ha,
        subW_of_le (by omega) hs.2]
      rfl
  · have ha' : ¬ addr = s.lo := by omega
    have hsz : RamEntry.mk (enc s).addr (subW 64 addr s.lo) = enc ⟨s.lo, addr⟩ := by
      rw [subW_of_le ha.le (by omega)]; rfl
    rw [min_eq_right ha.le, if_neg (fun h => ha' h.1), if_neg ha',
      if_neg (show ¬ (addr ≤ s.lo ∧ s.hi ≤ end_) by omega), if_neg (show ¬ addr ≤ s.lo by omega),
      hsz]
    by_cases he : end_ < s.hi
    · rw [max_eq_left he.le, if_pos (show s.hi ≠ end_ by omega), if_pos he,
        subW_of_le he.le hs.2]
    · rw [max_eq_right (not_lt.mp he), if_neg (by simp), if_neg he]

/-- Entries from where the request ends on are walked and kept. -/
theorem allocFrom_past {addr end_ : ℕ} (hae : addr ≤ end_) (hend : end_ < 2 ^ 64) :
    ∀ (m : List (Span ℕ)) (fuel : ℕ) (t : RamList) (l : List (Span ℕ)), t.Raw (l ++ m) →
    m.length < fuel → (∀ s ∈ m, end_ ≤ s.lo) →
    ∃ t', allocFrom addr end_ fuel t l.length = .ok t' ∧ t'.Raw (l ++ m)
  | [], fuel + 1, t, l, h, _, _ => by
      refine ⟨t, ?_, h⟩
      rw [allocFrom, if_pos (h.slot_end (by simp))]
  | s :: m, fuel + 1, t, l, h, hf, hm => by
      have hs := h.at_
      have hle : end_ ≤ s.lo := hm s (by simp)
      have hf' : m.length < fuel := by simpa using hf
      have hm' : ∀ u ∈ m, end_ ≤ u.lo := fun u hu => hm u (by simp [hu])
      rw [allocFrom_step h hae hend]
      by_cases hhit : Hit addr end_ s
      · -- The entry touches the request: it is written back as it was.
        have he : end_ = s.lo := by simp only [Hit] at hhit; omega
        have hu : (⟨end_, s.hi⟩ : Span ℕ) = s := by rw [he]
        have h₁ := h.replace rfl hs
        obtain ⟨t', ht', hR⟩ :=
          allocFrom_past hae hend m fuel _ (l ++ [s]) (by simpa using h₁) hf' hm'
        refine ⟨t', ?_, by simpa using hR⟩
        rw [if_pos hhit, if_neg (by omega), if_pos (by omega), hu, ← ht']
        simp
      · obtain ⟨t', ht', hR⟩ :=
          allocFrom_past hae hend m fuel t (l ++ [s]) (by simpa using h) hf' hm'
        refine ⟨t', ?_, by simpa using hR⟩
        rw [if_neg hhit, ← ht', List.length_append, List.length_singleton]

/-- What splitting `s` at the request gives `add_mem` to do, and what it makes of it. -/
theorem split_spec {t : RamList} {l m : List (Span ℕ)} {s : Span ℕ} {addr end_ : ℕ}
    (h : t.Rep (l ++ s :: m)) (hae : addr ≤ end_) (hlo : s.lo < addr) (hhi : end_ < s.hi) :
    (MAX_RAM_LIST_SIZE - ENTRY_SIZE < t.ram_list_size ∧
      add_mem end_ (s.hi - end_)
        ⟨Function.update t.slots l.length (enc ⟨s.lo, addr⟩), t.ram_list_size⟩ =
        .error .ram_overflow) ∨
    ∃ t', add_mem end_ (s.hi - end_)
        ⟨Function.update t.slots l.length (enc ⟨s.lo, addr⟩), t.ram_list_size⟩ = .ok t' ∧
      if addr = end_ then t'.Rep (l ++ s :: m)
      else t'.Rep (l ++ ⟨s.lo, addr⟩ :: ⟨end_, s.hi⟩ :: m) := by
  have hs := h.raw.at_
  obtain ⟨hgl, hgs, hgls⟩ := List.pairwise_append.mp h.normal.gaps
  obtain ⟨hgm, hgm'⟩ := List.pairwise_cons.mp hgs
  have h₁ := h.raw.replace (u := ⟨s.lo, addr⟩) rfl ⟨hlo, show addr < 2 ^ 64 by omega⟩
  -- The list without the part above the request is normal, so `add_mem` applies to it.
  have hnorm : Normal (l ++ ⟨s.lo, addr⟩ :: m) := by
    have := h.normal.replace (normal_singleton (s := ⟨s.lo, addr⟩) hlo) (by simp; omega)
    simpa using this
  have h₂ : RamList.Rep ⟨Function.update t.slots l.length (enc ⟨s.lo, addr⟩), t.ram_list_size⟩
      (l ++ ⟨s.lo, addr⟩ :: m) :=
    ⟨h₁.holds, h₁.size, h.room, hnorm, fun u hu => (h₁.proper u hu).2⟩
  have hsz : 0 < s.hi - end_ := by omega
  have hw : end_ + (s.hi - end_) < 2 ^ 64 := by omega
  rcases add_mem_spec h₂ hsz hw with hfull | ⟨t', ht', hR⟩
  · exact .inl hfull
  · refine .inr ⟨t', ht', ?_⟩
    have hp : (⟨end_, end_ + (s.hi - end_)⟩ : Span ℕ) = ⟨end_, s.hi⟩ := by congr 1; omega
    rw [hp] at hR
    have hplace : place ⟨end_, s.hi⟩ (l ++ ⟨s.lo, addr⟩ :: m) =
        (l ++ [⟨s.lo, addr⟩]) ++ ⟨end_, s.hi⟩ :: m := by
      rw [show l ++ ⟨s.lo, addr⟩ :: m = (l ++ [(⟨s.lo, addr⟩ : Span ℕ)]) ++ m by simp]
      refine place_append (fun u hu => ?_) fun u hu => ?_
      · rcases List.mem_append.mp hu with hu | hu
        · have h₃ := hgls u hu s (by simp)
          have h₄ := h.normal.proper u (by simp [hu])
          simp only; omega
        · obtain rfl := List.mem_singleton.mp hu
          simp only; omega
      · have := hgm u hu; simp only; omega
    by_cases hz : addr = end_
    · -- An empty request: the two parts touch and are joined again.
      rw [if_pos hz]
      rw [unite, hplace, List.append_assoc, List.singleton_append, joinAll_append, absorb,
        if_pos (by simp only; omega)] at hR
      · have hmax : (⟨s.lo, max addr s.hi⟩ : Span ℕ) = s := by
          rw [max_eq_right (by omega)]
        simp only [hmax] at hR
        rwa [absorb_of_normal m s ⟨hgs, fun u hu => h.normal.proper u (by simp_all)⟩] at hR
      · have hsl : (l ++ [(⟨s.lo, addr⟩ : Span ℕ)]).Sublist (l ++ ⟨s.lo, addr⟩ :: m) := by simp
        have hsub := hnorm.gaps.sublist hsl
        exact ⟨hsub, fun u hu => hnorm.proper u (by
          rcases List.mem_append.mp hu with hu | hu
          · simp [hu]
          · simp_all)⟩
    · rw [if_neg hz]
      have hfin : Normal (l ++ ⟨s.lo, addr⟩ :: ⟨end_, s.hi⟩ :: m) := by
        have hab : Normal [(⟨s.lo, addr⟩ : Span ℕ), ⟨end_, s.hi⟩] :=
          normal_cons.mpr ⟨hlo, by simp; omega, normal_singleton hhi⟩
        have := h.normal.replace hab (by simp; omega)
        simpa using this
      rw [unite, hplace, List.append_assoc, List.singleton_append, joinAll_of_normal hfin] at hR
      exact hR

/-- **The loop of `alloc_ram` is `cutAll`**, unless it has to split an entry of a full table. -/
theorem allocFrom_spec {addr end_ : ℕ} (hae : addr ≤ end_) (hend : end_ < 2 ^ 64) :
    ∀ (m : List (Span ℕ)) (fuel : ℕ) (t : RamList) (l : List (Span ℕ)), t.Rep (l ++ m) →
    m.length + 1 < fuel →
    (MAX_RAM_LIST_SIZE - ENTRY_SIZE < t.ram_list_size ∧
      allocFrom addr end_ fuel t l.length = .error .ram_overflow) ∨
    ∃ t', allocFrom addr end_ fuel t l.length = .ok t' ∧ t'.Rep (l ++ cutAll addr end_ m)
  | [], fuel + 1, t, l, h, _ => by
      refine .inr ⟨t, ?_, h⟩
      rw [allocFrom, if_pos (h.raw.slot_end (by simp))]
  | s :: m, fuel + 1, t, l, h, hf => by
      have hs := h.raw.at_
      have hf' : m.length + 1 < fuel := by simpa using hf
      have hgm : ∀ u ∈ m, s.hi < u.lo := fun u hu =>
        (List.pairwise_cons.mp (List.pairwise_append.mp h.normal.gaps).2.1).1 u hu
      have hcons : ∀ a : List (Span ℕ), s.cut addr end_ = a →
          l ++ cutAll addr end_ (s :: m) = (l ++ a) ++ cutAll addr end_ m := fun a ha => by
        rw [cutAll, List.flatMap_cons, ha, ← cutAll, List.append_assoc]
      -- The table after an iteration that leaves `a` of `s` represents a normal list again.
      have hrep : ∀ (t₁ : RamList) (a : List (Span ℕ)), s.cut addr end_ = a → a.length ≤ 1 →
          t₁.Raw (l ++ a ++ m) → t₁.Rep (l ++ a ++ m) := fun t₁ a ha hlen hR => by
        refine ⟨hR.holds, hR.size, ?_, ?_, fun u hu => (hR.proper u hu).2⟩
        · have h₁ := h.size
          have h₂ := h.room
          rw [hR.size]
          simp only [List.length_append, List.length_cons, ENTRY_SIZE] at *
          omega
        · have hin : ∀ u ∈ a, s.lo ≤ u.lo ∧ u.hi ≤ s.hi := fun u hu =>
            have := Span.mem_cut hs.1 (ha ▸ hu)
            ⟨this.1, this.2.2⟩
          exact h.normal.replace (ha ▸ Span.cut_normal hs.1) hin
      rw [allocFrom_step h.raw hae hend]
      by_cases hhit : Hit addr end_ s
      · rw [if_pos hhit]
        by_cases h₁ : addr ≤ s.lo ∧ s.hi ≤ end_
        · have hcut : s.cut addr end_ = [] := by
            rw [Span.cut, if_neg (by omega), if_neg (by omega), if_neg (by omega)]; rfl
          rw [if_pos h₁, hcons _ hcut]
          have hR := hrep _ _ hcut (by simp) (by simpa using h.raw.erase rfl)
          rw [List.append_nil] at hR ⊢
          rcases allocFrom_spec hae hend m fuel _ l hR hf' with ⟨hfull, -⟩ | hok
          · have h₂ := h.room
            simp only [ENTRY_SIZE, MAX_RAM_LIST_SIZE] at hfull h₂; omega
          · exact .inr hok
        rw [if_neg h₁]
        by_cases h₂ : addr ≤ s.lo
        · -- The request takes the lower part, or only touches the entry.
          have hcut : s.cut addr end_ = [⟨end_, s.hi⟩] := by
            have hle : s.lo ≤ end_ := by simp only [Hit] at hhit; omega
            rcases hle.eq_or_lt with hle | hle
            · rw [Span.cut_of_apart (by omega), ← hle]
            · rw [Span.cut, if_neg (by omega), if_neg (by omega), if_pos (by omega)]; rfl
          have hR := hrep _ _ hcut (by simp)
            (by simpa using h.raw.replace (u := ⟨end_, s.hi⟩) rfl ⟨show end_ < s.hi by omega, hs.2⟩)
          rw [if_pos h₂, hcons _ hcut]
          have := allocFrom_spec hae hend m fuel _ _ hR hf'
          rwa [List.length_append, List.length_singleton] at this
        rw [if_neg h₂]
        have hlo : s.lo < addr := by omega
        by_cases h₃ : end_ < s.hi
        · -- The entry is split; what `add_mem` puts after it is only walked.
          rw [if_pos h₃]
          rcases split_spec h hae hlo h₃ with ⟨hfull, herr⟩ | ⟨t₁, hadd, hR⟩
          · exact .inl ⟨hfull, by rw [herr]; rfl⟩
          rw [hadd]
          have hpast : ∀ u ∈ m, end_ ≤ u.lo := fun u hu => by have := hgm u hu; omega
          have hcutm : cutAll addr end_ m = m := cutAll_of_apart fun u hu =>
            .inr (.inr (hpast u hu))
          refine .inr ?_
          by_cases hz : addr = end_
          · rw [if_pos hz] at hR
            obtain ⟨t', ht', hR'⟩ := allocFrom_past hae hend m fuel t₁ (l ++ [s])
              (by simpa using hR.raw) (by omega) hpast
            rw [List.length_append, List.length_singleton] at ht'
            refine ⟨t', ht', ?_⟩
            rw [hcons [s] (Span.cut_of_apart (.inl hz.ge)), hcutm]
            exact hR'.rep (by simpa using hR)
          · rw [if_neg hz] at hR
            obtain ⟨t', ht', hR'⟩ := allocFrom_past hae hend (⟨end_, s.hi⟩ :: m) fuel t₁
              (l ++ [⟨s.lo, addr⟩]) (by simpa using hR.raw) (by simpa using hf')
                (by simpa using hpast)
            rw [List.length_append, List.length_singleton] at ht'
            refine ⟨t', ht', ?_⟩
            have hcut : s.cut addr end_ = [⟨s.lo, addr⟩, ⟨end_, s.hi⟩] := by
              rw [Span.cut, if_neg (by omega), if_pos hlo, if_pos h₃]; rfl
            rw [hcons _ hcut, hcutm, List.append_assoc]
            rw [List.append_assoc] at hR'
            exact hR'.rep hR
        · have hcut : s.cut addr end_ = [⟨s.lo, addr⟩] := by
            have hne : ¬ s.hi ≤ addr := by simp only [Hit] at hhit; omega
            rw [Span.cut, if_neg (by omega), if_pos hlo, if_neg h₃]; rfl
          have hR := hrep _ _ hcut (by simp)
            (by simpa using h.raw.replace (u := ⟨s.lo, addr⟩) rfl ⟨hlo, by simp only; omega⟩)
          rw [if_neg h₃, hcons _ hcut]
          have := allocFrom_spec hae hend m fuel _ _ hR hf'
          rwa [List.length_append, List.length_singleton] at this
      · have hcut : s.cut addr end_ = [s] := Span.cut_of_apart (.inr (apart_of_not_hit hhit))
        rw [if_neg hhit, hcons _ hcut]
        have := allocFrom_spec hae hend m fuel t (l ++ [s]) (by simpa using h) hf'
        rwa [List.length_append, List.length_singleton] at this

end Startup
