import RpiBsp.Startup.Syspage.HwiAlloc

/-!
# Startup — Syspage — walking the tags

What a consumer of the hwinfo section relies on, after any calls.

* `walk` — from a tag to the next one by the size in its prefix, to a prefix of zero.
* `Described` — the walk visits the tags that were allocated, with pads between them, and ends
  inside the section; the tags are aligned, and the items have the sizes and the numbers of kids
  that they are to have.
* `hwi_run` — this holds after every run of calls, among strings and other calls on the page.
-/

namespace Startup

open Support

/-! ### The walk -/

/-- The offsets of the tags from `off` on, and where they end. -/
def Hwi.walk (s : Hwi) : ℕ → ℕ → Option (List ℕ × ℕ)
  | 0, _ => none
  | fuel + 1, off =>
      if s.get off 0 = 0 then some ([], off)
      else (s.walk fuel (off + s.get off 0 * 4)).map fun r => (off :: r.1, r.2)

variable {D : HwiDefs} {L : Layout} {s s' : Hwi} {names : List CString} {ts us vs : List Tag}
    {t : Tag} {n off : ℕ}
  {kids : ℕ → ℕ} {l : List UInt8}

theorem Tag.fields_size (t : Tag) (span kids : ℕ) :
    (t.fields span kids)[0]? = some (t.size / 4) ∧ (t.fields span kids)[1]? = some t.name :=
  ⟨rfl, rfl⟩

/-- The walk over an image visits every tag of it. -/
theorem walk_image (hfit : ∀ t ∈ ts, t.Fits) (hn : 2 ≤ n)
    (h : Stocked L s.page names (l ++ image kids l.length ts ++ List.replicate n 0)) {fuel : ℕ}
    (hfuel : ts.length < fuel) :
    s.walk fuel l.length = some ((placed l.length ts).map Prod.fst, l.length + extent ts) := by
  obtain ⟨fuel, rfl⟩ := Nat.exists_eq_succ_of_ne_zero (Nat.ne_zero_of_lt hfuel)
  induction ts generalizing l fuel with
  | nil =>
      rw [image, List.append_nil] at h
      have hzero : s.get l.length 0 = 0 :=
        (h.zeros (k := 1) hn).get rfl (show (List.replicate 1 0)[0]? = some 0 from rfl)
      rw [Hwi.walk, if_pos hzero]
      rfl
  | cons t ts ih =>
      have hfits := hfit t List.mem_cons_self
      have hlen := h.length_le
      have himage : (image kids l.length (t :: ts)).length = t.size + extent ts := length_image hfit
      rw [List.length_append, List.length_append, himage] at hlen
      have hhead := h
      rw [image_cons, ← List.append_assoc, List.append_assoc] at hhead
      have hget : s.get l.length 0 = t.size / 4 := by
        rw [hhead.get rfl (t.fields_size _ _).1]
        exact Nat.mod_eq_of_lt (by omega)
      have hwords := hfits.words
      have hpos := hfits.four_le
      have hnext : (l ++ t.bytes (t.size + belongs ts) (kids l.length)).length =
          l.length + t.size := by
        rw [List.length_append, hfits.length_bytes]
      rw [image, ← List.append_assoc, ← hnext] at h
      obtain ⟨fuel, rfl⟩ :=
        Nat.exists_eq_succ_of_ne_zero (show fuel ≠ 0 by rw [List.length_cons] at hfuel; omega)
      have hrest := ih (fun u hu => hfit u (List.mem_cons_of_mem _ hu)) h fuel
        (by rw [List.length_cons] at hfuel; omega)
      rw [hnext] at hrest
      have hstep : l.length + s.get l.length 0 * 4 = l.length + t.size := by omega
      rw [Hwi.walk, if_neg (by omega), hstep, hrest, placed_cons, extent_cons, ← Nat.add_assoc]
      rfl

/-- A tag among others. -/
theorem image_at (hfit : ∀ t ∈ us, t.Fits) (kids : ℕ → ℕ) (off : ℕ) : ∃ l m, l.length = extent us ∧
    image kids off (us ++ t :: vs) =
      l ++ fields 2 (t.fields (t.size + belongs vs) (kids (off + extent us))) ++ m := by
  induction us generalizing off with
  | nil => exact ⟨[], _, rfl, image_cons⟩
  | cons u us ih =>
      obtain ⟨l, m, hlen, himage⟩ :=
        ih (fun v hv => hfit v (List.mem_cons_of_mem _ hv)) (off + u.size)
      refine ⟨u.bytes (u.size + belongs (us ++ t :: vs)) (kids off) ++ l, m, ?_, ?_⟩
      · rw [List.length_append, (hfit u List.mem_cons_self).length_bytes, hlen, extent_cons]
      · rw [List.cons_append, image, himage, extent_cons, ← Nat.add_assoc]
        simp only [List.append_assoc]

/-- The fields of a tag. -/
theorem Kept.get (h : Kept D L s (us ++ t :: vs) names) {j v : ℕ}
    (hj : (t.fields (t.size + belongs vs) (kidsOf (us ++ t :: vs) (extent us)))[j]? = some v) :
    s.get (extent us) j = v % 2 ^ 16 := by
  obtain ⟨n, -, hst⟩ := h.stocked
  obtain ⟨l, m, hlen, himage⟩ :=
    @image_at us vs t (fun u hu => h.good.fits u (List.mem_append_left _ hu))
    (kidsOf (us ++ t :: vs)) 0
  rw [himage, List.append_assoc, Nat.zero_add] at hst
  exact hst.get hlen.symm hj

theorem Kept.extent_le (h : Kept D L s ts names) : extent ts ≤ 2 ^ 16 - 4 := by
  obtain ⟨n, hn, hst⟩ := h.stocked
  have hlen := hst.length_le
  rw [List.length_append, List.length_replicate, length_image h.good.fits] at hlen
  omega

/-- A name that a tag has, in a field. -/
theorem Kept.denotes (h : Kept D L s ts names) {name : CString} {o : ℕ}
    (ho : place names name = some o) :
    Denotes s.page (o % 2 ^ 16) name := by
  obtain ⟨n, -, hst⟩ := h.stocked
  obtain ⟨m, ht⟩ := hst.table
  rw [Nat.mod_eq_of_lt (hst.place_lt ho)]
  exact ht.denotes ho

/-! ### The tags that were asked for -/

theorem Tag.alloc_eq_some {x : ℕ × Tag} {a : Alloc} (h : Tag.alloc x = some a) :
    x.2.pad = false ∧ a.off = x.1 ∧ a.info = x.2.info ∧ a.item = x.2.item.map fun i =>
      (i.name, i.owner) := by
  unfold Tag.alloc at h
  split at h
  · cases h
  · cases h
    exact ⟨Bool.eq_false_of_not_eq_true ‹_›, rfl, rfl, rfl⟩

/-- Where the tags are that were asked for. -/
theorem allocs_offs (ts : List Tag) :
    (allocs ts).map Alloc.off = ((placed 0 ts).filter fun x => !x.2.pad).map Prod.fst := by
  rw [allocs]
  induction placed 0 ts with
  | nil => rfl
  | cons x xs ih =>
      cases hp : x.2.pad with
      | true => simp [Tag.alloc, hp, ih]
      | false => simp [Tag.alloc, hp, ih]

/-- An offset is that of a tag that was asked for if the tag there is no pad. -/
theorem mem_allocs_iff (hfit : ∀ t ∈ ts, t.Fits) {x : ℕ × Tag} (hx : x ∈ placed 0 ts) :
    x.1 ∈ (allocs ts).map Alloc.off ↔ x.2.pad = false := by
  have hpos : ∀ t ∈ ts, 0 < t.size := fun t ht => Nat.lt_of_lt_of_le (by decide) (hfit t ht).four_le
  rw [allocs_offs, placed, mem_picked_iff hpos _ hx, Bool.not_eq_true']

/-- The offsets that are visited and belong to tags that were asked for. -/
theorem filter_offsets (hfit : ∀ t ∈ ts, t.Fits) :
    ((placed 0 ts).map Prod.fst).filter (· ∈ (allocs ts).map Alloc.off) =
      (allocs ts).map Alloc.off := by
  have hpos : ∀ t ∈ ts, 0 < t.size := fun t ht => Nat.lt_of_lt_of_le (by decide) (hfit t ht).four_le
  rw [allocs_offs]
  exact filter_picked hpos _

/-- Where the next item begins, or the tags end. -/
def nextItem (as : List Alloc) (final : ℕ) : ℕ :=
  ((as.find? fun a => a.item.isSome).map Alloc.off).getD final

/-- What belongs to an item ends at the next one. -/
theorem nextItem_placed (hpads : ∀ t ∈ ts, t.pad = true → t.item = none) :
    nextItem ((placed off ts).filterMap Tag.alloc) (off + extent ts) = off + belongs ts := by
  induction ts generalizing off with
  | nil => rfl
  | cons t ts ih =>
      have hrest := @ih (off + t.size) fun u hu => hpads u (List.mem_cons_of_mem _ hu)
      rw [Nat.add_assoc, Nat.add_assoc] at hrest
      rw [placed_cons, belongs, extent_cons]
      cases hp : t.pad with
      | true =>
          have hitem : t.item = none := hpads t List.mem_cons_self hp
          simpa [Tag.alloc, hp, hitem] using hrest
      | false =>
          cases hi : t.item with
          | none => simpa [Tag.alloc, hp, hi, nextItem] using hrest
          | some i => simp [Tag.alloc, hp, hi, nextItem]

/-- The kids among the tags that were asked for. -/
theorem kidsOf_placed (hpads : ∀ t ∈ ts, t.pad = true → t.item = none) (x : ℕ) :
    ((placed off ts).filterMap Tag.alloc).countP (fun a => decide (a.item.map Prod.snd = some x)) =
      kidsOf ts x := by
  induction ts generalizing off with
  | nil => rfl
  | cons t ts ih =>
      have hrest := @ih (off + t.size) fun u hu => hpads u (List.mem_cons_of_mem _ hu)
      rw [placed_cons]
      cases hp : t.pad with
      | true =>
          have hitem : t.item = none := hpads t List.mem_cons_self hp
          simpa [Tag.alloc, hp, hitem, kidsOf, List.countP_cons] using hrest
      | false =>
          simpa [Tag.alloc, hp, kidsOf, List.countP_cons, Function.comp_def] using hrest

/-! ### What a consumer relies on -/

/-- The tags that were asked for are found in the section. -/
structure Described (D : HwiDefs) (s : Hwi) (as : List Alloc) : Prop where
  /-- The walk visits them in order, with pads between them, and ends behind them. -/
  visited : ∃ offs, s.walk (s.page.size (some .hwinfo)) 0 = some (offs, s.offset) ∧
    offs.filter (· ∈ as.map Alloc.off) = as.map Alloc.off ∧
    ∀ x ∈ offs, x ∉ as.map Alloc.off → s.get x 0 = 1 ∧ Denotes s.page (s.get x 1) D.pad
  ended : s.offset + 4 ≤ s.page.size (some .hwinfo) ∧ s.get s.offset 0 = 0 ∧ s.get s.offset 1 = 0
  tags : ∀ a ∈ as, s.get a.off 0 * 4 = a.info.size ∧ a.info.align ∣ a.off ∧
    (a.info.name.chars ≠ [] → Denotes s.page (s.get a.off 1) a.info.name)
  items : ∀ a ∈ as, ∀ name owner, a.item = some (name, owner) →
    (name.chars ≠ [] → Denotes s.page (s.get a.off 3) name) ∧ s.get a.off 4 = owner % 2 ^ 16
  /-- The size of an item is the distance to the next one, or to the end. -/
  spans : ∀ front a back, as = front ++ a :: back → a.item.isSome →
    a.off + s.get a.off 2 * 4 = nextItem back s.offset
  kids : ∀ a ∈ as, a.item.isSome → s.get a.off 5 = as.countP fun b =>
    decide (b.item.map Prod.snd = some a.off)

/-- A tag that was asked for, among the others. -/
theorem mem_allocs {a : Alloc} (h : a ∈ allocs ts) : ∃ us t vs, ts = us ++ t :: vs ∧ t.pad = false ∧
    a = ⟨extent us, t.info, t.item.map fun i => (i.name, i.owner)⟩ := by
  obtain ⟨⟨x, t⟩, hx, ha⟩ := List.mem_filterMap.mp h
  obtain ⟨us, vs, rfl, rfl⟩ := mem_placed hx
  obtain ⟨hpad, hoff, hinfo, hitem⟩ := Tag.alloc_eq_some ha
  refine ⟨us, t, vs, rfl, hpad, ?_⟩
  cases a
  simp only at hoff hinfo hitem
  rw [hoff, hinfo, hitem, Nat.zero_add]

theorem Kept.visited (h : Kept D L s ts names) (hpad : D.pad.chars ≠ []) :
    ∃ offs, s.walk (s.page.size (some .hwinfo)) 0 = some (offs, s.offset) ∧
      offs.filter (· ∈ (allocs ts).map Alloc.off) = (allocs ts).map Alloc.off ∧
      ∀ x ∈ offs, x ∉ (allocs ts).map Alloc.off → s.get x 0 = 1 ∧
      Denotes s.page (s.get x 1) D.pad := by
  obtain ⟨n, hn, hst⟩ := h.stocked
  have hfit := h.good.fits
  have hsize := hst.bytes.size
  rw [List.length_append, List.length_replicate, length_image hfit] at hsize
  have hcount := length_le_extent hfit
  have hwalk : s.walk (s.page.size (some .hwinfo)) 0 =
      some ((placed 0 ts).map Prod.fst, 0 + extent ts) :=
    walk_image (l := []) (n := n) hfit (by omega) hst (by omega)
  rw [Nat.zero_add, ← h.offset] at hwalk
  refine ⟨_, hwalk, filter_offsets hfit, fun x hx hother => ?_⟩
  obtain ⟨⟨y, t⟩, hy, rfl⟩ := List.mem_map.mp hx
  obtain ⟨us, vs, hts, rfl⟩ := mem_placed hy
  have ht : t ∈ ts := hts ▸ List.mem_append_right _ List.mem_cons_self
  have hp : t.pad = true := by
    rw [mem_allocs_iff hfit hy] at hother
    exact Bool.eq_true_of_not_eq_false hother
  obtain ⟨hinfo, -⟩ := h.good.pads t ht hp
  have hname : place names D.pad = some t.name := by
    have hplace := h.good.named t ht
    rw [hinfo] at hplace
    exact hplace hpad
  rw [hts] at h
  rw [Nat.zero_add]
  constructor
  · have hfour : t.size = 4 := by rw [Tag.size, hinfo]; rfl
    rw [h.get (t.fields_size _ _).1, hfour]
    rfl
  · rw [h.get (t.fields_size _ _).2]
    exact h.denotes hname

theorem Kept.ended (h : Kept D L s ts names) :
    s.offset + 4 ≤ s.page.size (some .hwinfo) ∧ s.get s.offset 0 = 0 ∧ s.get s.offset 1 = 0 := by
  obtain ⟨n, hn, hst⟩ := h.stocked
  have hsize := hst.bytes.size
  have hlen : s.offset = (image (kidsOf ts) 0 ts).length := by
    rw [h.offset, length_image h.good.fits]
  rw [List.length_append, List.length_replicate, ← hlen] at hsize
  have hzeros := hst.zeros (k := 2) hn
  exact ⟨by omega, hzeros.get hlen (show (List.replicate 2 0)[0]? = some 0 from rfl),
    hzeros.get hlen (show (List.replicate 2 0)[1]? = some 0 from rfl)⟩

/-- The size of an item and the number of its kids. -/
theorem Kept.item (h : Kept D L s (us ++ t :: vs) names) (ht : t.item.isSome) :
    s.get (extent us) 2 * 4 = t.size + belongs vs ∧
    s.get (extent us) 5 = kidsOf (us ++ t :: vs) (extent us) := by
  have hle := h.extent_le
  have hbel := belongs_le vs
  have hcount := length_le_extent h.good.fits
  have hkids := kidsOf_le (us ++ t :: vs) (extent us)
  obtain ⟨hspan, hkid, -⟩ :=
    Tag.fields_kids ht (t.size + belongs vs) (kidsOf (us ++ t :: vs) (extent us))
  have hwords : 4 ∣ t.size + belongs vs := by
    have hall := h.good.fits
    have hvs : ∀ {vs : List Tag}, (∀ v ∈ vs, v.Fits) → 4 ∣ belongs vs := by
      intro vs hvs
      induction vs with
      | nil => exact Nat.dvd_zero 4
      | cons v vs ih =>
          rw [belongs]
          split
          · exact Nat.dvd_zero 4
          · exact Nat.dvd_add (hvs v List.mem_cons_self).words
              (ih fun w hw => hvs w (List.mem_cons_of_mem _ hw))
    exact Nat.dvd_add (hall t (by simp)).words (hvs fun v hv => hall v (by simp [hv]))
  rw [extent_append, extent_cons] at hle hcount
  rw [h.get hspan, h.get hkid, Nat.mod_eq_of_lt (by omega), Nat.mod_eq_of_lt (by omega)]
  exact ⟨Nat.div_mul_cancel hwords, rfl⟩

/-- What is found of a tag that was asked for. -/
theorem Kept.tag (h : Kept D L s ts names) {a : Alloc} (ha : a ∈ allocs ts) :
    s.get a.off 0 * 4 = a.info.size ∧ a.info.align ∣ a.off ∧
      (a.info.name.chars ≠ [] → Denotes s.page (s.get a.off 1) a.info.name) := by
  obtain ⟨us, t, vs, hts, -, rfl⟩ := mem_allocs ha
  have hmem : t ∈ ts := hts ▸ List.mem_append_right _ List.mem_cons_self
  have hle := h.extent_le
  have halign := h.good.aligned (extent us, t) (by rw [hts, placed_append, Nat.zero_add]; simp)
  have hplace := h.good.named t hmem
  have hwords := (h.good.fits t hmem).words
  rw [hts] at h
  rw [hts, extent_append, extent_cons] at hle
  refine ⟨?_, halign, fun hne => ?_⟩
  · rw [h.get (t.fields_size _ _).1, Nat.mod_eq_of_lt (by omega)]
    exact Nat.div_mul_cancel hwords
  · rw [h.get (t.fields_size _ _).2]
    exact h.denotes (hplace hne)

/-- The name of an item, and its owner. -/
theorem Kept.called (h : Kept D L s ts names) {a : Alloc} (ha : a ∈ allocs ts) {name : CString}
    {owner : ℕ} (hitem : a.item = some (name, owner)) :
    (name.chars ≠ [] → Denotes s.page (s.get a.off 3) name) ∧ s.get a.off 4 = owner % 2 ^ 16 := by
  obtain ⟨us, t, vs, hts, -, rfl⟩ := mem_allocs ha
  obtain ⟨i, hi, heq⟩ := Option.map_eq_some_iff.mp hitem
  obtain ⟨rfl, rfl⟩ := Prod.mk.inj heq
  have hplace := h.good.itemNamed t (hts ▸ List.mem_append_right _ List.mem_cons_self) i hi
  rw [hts] at h
  have hfields : ∀ span kids,
      t.fields span kids = [t.size / 4, t.name, span / 4, i.itemname, i.owner, kids] := by
    intro span kids
    rw [Tag.fields, hi]
  refine ⟨fun hne => ?_, ?_⟩
  · rw [h.get (j := 3) (v := i.itemname) (by rw [hfields]; rfl)]
    exact h.denotes (hplace hne)
  · exact h.get (j := 4) (v := i.owner) (by rw [hfields]; rfl)

/-- An item ends where the next one begins. -/
theorem Kept.span (h : Kept D L s ts names) {front back : List Alloc} {a : Alloc}
    (hsplit : allocs ts = front ++ a :: back)
    (hsome : a.item.isSome) : a.off + s.get a.off 2 * 4 = nextItem back s.offset := by
  obtain ⟨xs, rest, hxs, -, hrest⟩ := List.filterMap_eq_append_iff.mp hsplit
  obtain ⟨ys, x, zs, rfl, -, hx, rfl⟩ := List.filterMap_eq_cons_iff.mp hrest
  rw [← List.append_assoc] at hxs
  obtain ⟨us, vs, rfl, hoff, rfl⟩ := placed_split hxs
  obtain ⟨-, haoff, -, haitem⟩ := Tag.alloc_eq_some hx
  have hitem : x.2.item.isSome := by
    rw [haitem] at hsome
    simpa using hsome
  have hnext := @nextItem_placed vs (x.1 + x.2.size) fun t ht hp =>
    (h.good.pads t (by simp [ht]) hp).2
  have hend : x.1 + x.2.size + extent vs = s.offset := by
    rw [h.offset, extent_append, extent_cons, hoff]
    omega
  have hspan := (h.item hitem).1
  rw [hend] at hnext
  rw [haoff, hnext, hoff, Nat.zero_add]
  omega

/-- An item counts the items that have it as their owner. -/
theorem Kept.counted (h : Kept D L s ts names) {a : Alloc} (ha : a ∈ allocs ts)
    (hsome : a.item.isSome) :
    s.get a.off 5 = (allocs ts).countP fun b => decide (b.item.map Prod.snd = some a.off) := by
  obtain ⟨us, t, vs, hts, -, rfl⟩ := mem_allocs ha
  have hitem : t.item.isSome := by simpa using hsome
  have hcount := @kidsOf_placed ts 0 (fun t ht hp => (h.good.pads t ht hp).2) (extent us)
  rw [hts] at h
  rw [(h.item hitem).2, ← hts, ← hcount]
  rfl

/-- A section that is the image of tags describes them. -/
theorem Kept.described (h : Kept D L s ts names) (hpad : D.pad.chars ≠ []) :
    Described D s (allocs ts) where
  visited := h.visited hpad
  ended := h.ended
  tags _ ha := h.tag ha
  items _ ha _ _ hitem := h.called ha hitem
  spans _ _ _ hsplit hsome := h.span hsplit hsome
  kids _ ha hsome := h.counted ha hsome

/-! ### Runs -/

/-- Calls of `hwi_alloc_tag` and `hwi_alloc_item`, of tags that `T` allows and items that `I`
allows, among strings and other calls on a page of 64 KiB at most.  The first call is one for an
item, and the owner of an item is one from before; the list has what was asked for, and where it was
put. -/
inductive HwiRun (D : HwiDefs) (L : Layout) (T I : TagInfo → Prop) (s₀ : Syspage Sect) :
    Hwi → List Alloc → Prop where
  | start : HwiRun D L T I s₀ ⟨s₀, 0, 0⟩ []
  | string {s : Hwi} {as : List Alloc} {name : CString} {off : ℕ} {page : Syspage Sect} :
      HwiRun D L T I s₀ s as → CString.Short name → add_string L name s.page = .ok (off, page) →
      HwiRun D L T I s₀ { s with page := page } as
  | page {s : Hwi} {as : List Alloc} {page : Syspage Sect} :
      HwiRun D L T I s₀ s as → PageStep L s.page page → page.max_size L ≤ 2 ^ 16 →
      HwiRun D L T I s₀ { s with page := page } as
  | tag {s s' : Hwi} {as : List Alloc} {info : TagInfo} {off depth : ℕ} :
      HwiRun D L T I s₀ s as → as ≠ [] → T info →
      hwi_alloc_tag D L (depth + 2) info s = .ok (off, s') →
      HwiRun D L T I s₀ s' (as ++ [⟨off, info, none⟩])
  | item {s s' : Hwi} {as : List Alloc} {info : TagInfo} {itemname : CString}
      {owner off depth : ℕ} :
      HwiRun D L T I s₀ s as → I info → CString.Short itemname →
      (owner = D.null_off ∨ ∃ a ∈ as, a.item.isSome ∧ a.off = owner) →
      hwi_alloc_item D L (depth + 2) info itemname owner s = .ok (off, s') →
      HwiRun D L T I s₀ s' (as ++ [⟨off, info, some (itemname, owner)⟩])

/-- What an item may be asked for as: a tag with room for six fields. -/
structure TagInfo.OkItem (t : TagInfo) : Prop extends t.Ok where
  twelve_le : 12 ≤ t.size

variable {s₀ : Syspage Sect} {as : List Alloc}

/-- The section when the page is new. -/
theorem InitPage.kept (hL : L.Valid) (hsp : L.spsize ≤ 2 ^ 31) (hs₀ : InitPage L 4 s₀)
    (hmax : s₀.max_size L ≤ 2 ^ 16) :
    Kept D L ⟨s₀, 0, 0⟩ [] [] := by
  obtain ⟨hlim, -, hstrings, hhwinfo, htotal⟩ := hs₀.spec hL hsp (by decide)
  have htable : Table s₀ [] 8 := ⟨hstrings, by decide, fun c hc => absurd hc List.not_mem_nil⟩
  exact ⟨⟨8, by decide, hlim, hmax, htotal.trans hmax, ⟨8, htable⟩, hhwinfo⟩, rfl, fun hne =>
    absurd rfl hne, .nil D []⟩

/-- Another name in the table. -/
theorem Kept.string (hL : L.Valid) (h : Kept D L s ts names) {name : CString}
    (hname : CString.Short name)
    {page : Syspage Sect} (hadd : add_string L name s.page = .ok (off, page)) :
    ∃ names', Kept D L { s with page := page } ts names' := by
  obtain ⟨n, hn, hst⟩ := h.stocked
  rcases hst.string hL hname with hover | ⟨off', page', names', hok, hst', hsub, -⟩
  · rw [hadd] at hover
    cases hover
  · rw [hadd] at hok
    cases hok
    exact ⟨names', ⟨n, hn, hst'⟩, h.offset, h.last, h.good.grow hsub⟩

/-- Another call on the page. -/
theorem Kept.page (hL : L.Valid) (h : Kept D L s ts names) {page : Syspage Sect}
    (hstep : PageStep L s.page page)
    (hmax : page.max_size L ≤ 2 ^ 16) : Kept D L { s with page := page } ts names := by
  obtain ⟨n, hn, hst⟩ := h.stocked
  obtain ⟨m, hst'⟩ := hst.pageStep hL hstep hmax
  rw [List.append_assoc, List.replicate_append_replicate] at hst'
  exact ⟨⟨n + m, by omega, hst'⟩, h.offset, h.last, h.good⟩

/-- An owner from before is an item among the tags. -/
theorem owner_placed {owner : ℕ}
    (h : owner = D.null_off ∨ ∃ a ∈ allocs ts, a.item.isSome ∧ a.off = owner) :
    owner = D.null_off ∨ IsItem ts owner := by
  refine h.imp_right ?_
  rintro ⟨a, ha, hitem, rfl⟩
  obtain ⟨us, u, vs, hts, -, rfl⟩ := mem_allocs ha
  exact ⟨us, u, vs, hts, by simpa using hitem, rfl⟩

/-- After every run the section is the image of the tags that were asked for, and pads. -/
theorem HwiRun.kept (hL : L.Valid) (hD : D.Valid) (h₀ : Kept D L ⟨s₀, 0, 0⟩ [] [])
    (hrun : HwiRun D L TagInfo.Ok TagInfo.OkItem s₀ s as) :
      ∃ ts names, Kept D L s ts names ∧ allocs ts = as := by
  induction hrun with
  | start => exact ⟨[], [], h₀, rfl⟩
  | string _ hname hadd ih =>
      obtain ⟨ts, names, h, hall⟩ := ih
      obtain ⟨names', h'⟩ := h.string hL hname hadd
      exact ⟨ts, names', h', hall⟩
  | page _ hstep hmax ih =>
      obtain ⟨ts, names, h, hall⟩ := ih
      exact ⟨ts, names, h.page hL hstep hmax, hall⟩
  | tag _ hne hok hres ih =>
      obtain ⟨ts, names, h, rfl⟩ := ih
      have hts : ts ≠ [] := fun hnil => hne (hnil ▸ rfl)
      rcases hwi_alloc_tag_spec hL hD h hts hok _ with
        hover | ⟨off, s', ts', names', hres', h', -, hall⟩
      · rw [hres] at hover
        cases hover
      · rw [hres] at hres'
        cases hres'
        exact ⟨ts', names', h', hall⟩
  | item _ hok hname howner hres ih =>
      obtain ⟨ts, names, h, rfl⟩ := ih
      rcases hwi_alloc_item_spec hL hD h hok.toOk hok.twelve_le hname (owner_placed howner) _ with
        hover | ⟨off, s', ts', names', hres', h', -, hall⟩
      · rw [hres] at hover
        cases hover
      · rw [hres] at hres'
        cases hres'
        exact ⟨ts', names', h', hall⟩

/-- **The hwinfo section describes what was asked for.**  From the page as it is set up, whatever
tags and items are allocated, whatever strings are added and whatever other calls are made on the
page: the walk visits the tags in order, the sizes and the numbers of kids of the items are right,
and a call returns unless the page overflows. -/
theorem hwi_run (hL : L.Valid) (hsp : L.spsize ≤ 2 ^ 31) (hD : D.Valid) (hs₀ : InitPage L 4 s₀)
    (hmax : s₀.max_size L ≤ 2 ^ 16) (hrun : HwiRun D L TagInfo.Ok TagInfo.OkItem s₀ s as) :
    Described D s as ∧
      (∀ info depth, TagInfo.Ok info → as ≠ [] →
        hwi_alloc_tag D L (depth + 2) info s = .error .syspage_overflow ∨
        ∃ off s', hwi_alloc_tag D L (depth + 2) info s = .ok (off, s')) ∧
      ∀ info itemname owner depth, TagInfo.OkItem info → CString.Short itemname →
        (owner = D.null_off ∨ ∃ a ∈ as, a.item.isSome ∧ a.off = owner) →
        hwi_alloc_item D L (depth + 2) info itemname owner s = .error .syspage_overflow ∨
          ∃ off s', hwi_alloc_item D L (depth + 2) info itemname owner s = .ok (off, s') := by
  obtain ⟨ts, names, h, rfl⟩ := hrun.kept hL hD (hs₀.kept hL hsp hmax)
  refine ⟨h.described hD.pad.1, fun info depth hok hne =>
    ?_, fun info itemname owner depth hok hname howner => ?_⟩
  · have hts : ts ≠ [] := fun hnil => hne (hnil ▸ rfl)
    rcases hwi_alloc_tag_spec hL hD h hts hok depth with hover | ⟨off, s', _, _, hres, -⟩
    · exact .inl hover
    · exact .inr ⟨off, s', hres⟩
  · rcases hwi_alloc_item_spec hL hD h hok.toOk hok.twelve_le hname (owner_placed howner)
      (depth + 1) with
      hover | ⟨off, s', _, _, hres, -⟩
    · exact .inl hover
    · exact .inr ⟨off, s', hres⟩

/-! ### Runs on a small page -/

/-- "pad". -/
def padName : CString := ⟨[0x70, 0x61, 0x64], by decide⟩

def smallDefs : HwiDefs := ⟨0xffff, padName⟩

theorem smallDefs_valid : smallDefs.Valid where
  null_off := by decide
  pad := ⟨by decide, by unfold CString.Short; decide⟩

/-- An item, a tag that has to be aligned, and an item that the first one owns. -/
theorem hwi_run_three : ∃ s₀ s, stringsPage = .ok s₀ ∧
    let as : List Alloc :=
  [⟨0, ⟨longString, 12, 4⟩, some (shortString, 0xffff)⟩, ⟨16, ⟨shortString, 8, 8⟩, none⟩,
      ⟨24, ⟨longString, 16, 8⟩, some (longString, 0)⟩]
    HwiRun smallDefs smallLayout TagInfo.Ok TagInfo.OkItem s₀ s as ∧ Described smallDefs s as := by
  have hrun : (do
      let p ← stringsPage
      let r₁ ← hwi_alloc_item smallDefs smallLayout 2 ⟨longString, 12, 4⟩ shortString 0xffff
        ⟨p, 0, 0⟩
      let r₂ ← hwi_alloc_tag smallDefs smallLayout 2 ⟨shortString, 8, 8⟩ r₁.2
      let r₃ ← hwi_alloc_item smallDefs smallLayout 2 ⟨longString, 16, 8⟩ longString 0 r₂.2
      return (p.max_size smallLayout, r₁.1, r₂.1, r₃.1)).toOption = some (0x800, 0, 16, 24) := by
    decide +kernel
  obtain ⟨s₀, hs₀, hrun⟩ := bind_eq_ok.mp (toOption_eq_some.mp hrun)
  obtain ⟨⟨o₁, s₁⟩, hs₁, hrun⟩ := bind_eq_ok.mp hrun
  obtain ⟨⟨o₂, s₂⟩, hs₂, hrun⟩ := bind_eq_ok.mp hrun
  obtain ⟨⟨o₃, s₃⟩, hs₃, hrun⟩ := bind_eq_ok.mp hrun
  obtain ⟨hmax, rfl, rfl, rfl⟩ : s₀.max_size smallLayout = 0x800 ∧ o₁ = 0 ∧ o₂ = 16 ∧ o₃ = 24 := by
    simpa only [Prod.mk.injEq] using Except.ok.inj hrun
  have hshort : CString.Short shortString := by unfold CString.Short; decide
  have hlong : CString.Short longString := by unfold CString.Short; decide
  have hitem : HwiRun smallDefs smallLayout TagInfo.Ok TagInfo.OkItem s₀ s₁ _ :=
    .item .start ⟨⟨by decide, by decide, by decide, .inl rfl, hlong⟩, by decide⟩ hshort
      (.inl rfl) hs₁
  have htag : HwiRun smallDefs smallLayout TagInfo.Ok TagInfo.OkItem s₀ s₂ _ :=
    .tag hitem (List.cons_ne_nil _ _) ⟨by decide, by decide, by decide, .inr rfl, hshort⟩ hs₂
  have hall : HwiRun smallDefs smallLayout TagInfo.Ok TagInfo.OkItem s₀ s₃ _ :=
    .item htag ⟨⟨by decide, by decide, by decide, .inr rfl, hlong⟩, by decide⟩ hlong
      (.inr ⟨_, List.mem_cons_self, rfl, rfl⟩) hs₃
  exact ⟨s₀, s₃, hs₀, hall,
    (hwi_run smallLayout_valid (by decide) smallDefs_valid (stringsPage_init hs₀)
    (by rw [hmax]; decide) hall).1⟩

/-- A size of any number of words. -/
def TagInfo.Words (t : TagInfo) : Prop :=
  4 ∣ t.size ∧ (t.align = 4 ∨ t.align = 8) ∧ CString.Short t.name

/-- A tag without even a prefix is where the tags end: the walk does not visit it. -/
theorem hwi_run_empty_tag : ∃ s₀ s as, stringsPage = .ok s₀ ∧
    HwiRun smallDefs smallLayout TagInfo.Words TagInfo.Words s₀ s as ∧
    ¬ Described smallDefs s as := by
  have hrun : (do
      let p ← stringsPage
      let r₁ ← hwi_alloc_item smallDefs smallLayout 2 ⟨longString, 12, 4⟩ shortString 0xffff
        ⟨p, 0, 0⟩
      let r₂ ← hwi_alloc_tag smallDefs smallLayout 2 ⟨shortString, 0, 4⟩ r₁.2
      return (r₁.1, r₂.1, r₂.2.walk (r₂.2.page.size (some .hwinfo)) 0)).toOption =
        some (0, 12, some ([0], 12)) := by
    decide +kernel
  obtain ⟨s₀, hs₀, hrun⟩ := bind_eq_ok.mp (toOption_eq_some.mp hrun)
  obtain ⟨⟨o₁, s₁⟩, hs₁, hrun⟩ := bind_eq_ok.mp hrun
  obtain ⟨⟨o₂, s₂⟩, hs₂, hrun⟩ := bind_eq_ok.mp hrun
  obtain ⟨rfl, rfl, hwalk⟩ : o₁ = 0 ∧ o₂ = 12 ∧
    s₂.walk (s₂.page.size (some .hwinfo)) 0 = some ([0], 12) := by
    simpa only [Prod.mk.injEq] using Except.ok.inj hrun
  have hshort : CString.Short shortString := by unfold CString.Short; decide
  have hlong : CString.Short longString := by unfold CString.Short; decide
  have hitem : HwiRun smallDefs smallLayout TagInfo.Words TagInfo.Words s₀ s₁ _ :=
    .item .start ⟨by decide, .inl rfl, hlong⟩ hshort (.inl rfl) hs₁
  refine ⟨s₀, s₂, _, hs₀, .tag hitem (List.cons_ne_nil _ _) ⟨by decide, .inl rfl, hshort⟩ hs₂,
    fun h => ?_⟩
  obtain ⟨offs, hoffs, hfilter, -⟩ := h.visited
  rw [hwalk] at hoffs
  obtain ⟨rfl, -⟩ := Prod.mk.inj (Option.some.inj hoffs)
  exact absurd hfilter (by decide)

end Startup
