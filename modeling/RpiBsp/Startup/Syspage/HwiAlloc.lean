import RpiBsp.Startup.Syspage.Hwinfo

/-!
# Startup — Syspage — allocating tags

The calls of `hwi_alloc.c`, on a section that is the image of a list of tags.

* `Kept` — what every call keeps.
* `hwi_alloc_tag_spec`, `hwi_alloc_item_spec` — one call puts a tag behind the others, and a pad
  in front of it if it has to be aligned, unless the page overflows.
-/

namespace Startup

open Support

/-! ### What is kept -/

/-- How many items have the one at `x` as their owner. -/
def kidsOf (ts : List Tag) (x : ℕ) : ℕ :=
  ts.countP fun t => decide (t.item.map ItemPart.owner = some x)

/-- The tags with their offsets, from `off` on. -/
def placed (off : ℕ) (ts : List Tag) : List (ℕ × Tag) := laid Tag.size off ts

variable {D : HwiDefs} {L : Layout} {s s' : Hwi} {names names' : List CString} {ts us vs : List Tag}
    {t u : Tag}
  {off x n : ℕ}

theorem kidsOf_concat (ts : List Tag) (t : Tag) (x : ℕ) :
    kidsOf (ts ++ [t]) x = kidsOf ts x + if t.item.map ItemPart.owner = some x then 1 else 0 := by
  simp [kidsOf, List.countP_append, List.countP_cons]

theorem kidsOf_le (ts : List Tag) (x : ℕ) : kidsOf ts x ≤ ts.length := List.countP_le_length

theorem kidsOf_tag (ht : t.item = none) (ts : List Tag) : kidsOf (ts ++ [t]) = kidsOf ts := by
  funext x
  simp [kidsOf_concat, ht]

@[simp] theorem placed_nil (off : ℕ) : placed off [] = [] := rfl

@[simp] theorem placed_cons (off : ℕ) (t : Tag) (ts : List Tag) :
    placed off (t :: ts) = (off, t) :: placed (off + t.size) ts := rfl

theorem placed_append (off : ℕ) (ts us : List Tag) :
    placed off (ts ++ us) = placed off ts ++ placed (off + extent ts) us :=
  laid_append Tag.size off ts us

theorem mem_placed (h : (x, t) ∈ placed off ts) :
    ∃ us vs, ts = us ++ t :: vs ∧ x = off + extent us := mem_laid h

theorem placed_split {xs ys : List (ℕ × Tag)} {y : ℕ × Tag} (h : placed off ts = xs ++ y :: ys) :
    ∃ us vs, ts = us ++ y.2 :: vs ∧ y.1 = off + extent us ∧ ys = placed (y.1 + y.2.size) vs :=
  laid_split h

theorem length_le_extent (h : ∀ t ∈ ts, t.Fits) : 4 * ts.length ≤ extent ts := by
  induction ts with
  | nil => exact Nat.le_refl 0
  | cons t ts ih =>
      have hpos := (h t List.mem_cons_self).four_le
      have hrest := ih fun u hu => h u (List.mem_cons_of_mem _ hu)
      rw [List.length_cons, extent_cons]
      omega

theorem extent_words (h : ∀ t ∈ ts, t.Fits) : 4 ∣ extent ts := by
  induction ts with
  | nil => exact Nat.dvd_zero 4
  | cons t ts ih =>
      exact Nat.dvd_add (h t List.mem_cons_self).words
        (ih fun u hu => h u (List.mem_cons_of_mem _ hu))

/-- The tags are well formed, their names are in the table, and each is aligned. -/
structure Good (D : HwiDefs) (names : List CString) (ts : List Tag) : Prop where
  fits : ∀ t ∈ ts, t.Fits
  named : ∀ t ∈ ts, t.info.name.chars ≠ [] → place names t.info.name = some t.name
  itemNamed : ∀ t ∈ ts, ∀ i, t.item = some i → i.name.chars ≠ [] →
    place names i.name = some i.itemname
  owned : ∀ t ∈ ts, ∀ i, t.item = some i → i.owner = D.null_off ∨ i.owner < extent ts
  aligned : ∀ x ∈ placed 0 ts, x.2.info.align ∣ x.1
  pads : ∀ t ∈ ts, t.pad = true → t.info = D.padInfo ∧ t.item = none

/-- `last` is the offset of the last item. -/
def LastItem (last : ℕ) (ts : List Tag) : Prop :=
  ∃ us u vs, ts = us ++ u :: vs ∧ u.item.isSome ∧ (∀ v ∈ vs, v.item = none) ∧ last = extent us

/-- The section is the image of the tags, which begin with an item. -/
structure Kept (D : HwiDefs) (L : Layout) (s : Hwi) (ts : List Tag)
    (names : List CString) : Prop where
  stocked : ∃ n, 4 ≤ n ∧ Stocked L s.page names (image (kidsOf ts) 0 ts ++ List.replicate n 0)
  offset : s.offset = extent ts
  last : ts ≠ [] → LastItem s.last_item ts
  good : Good D names ts

theorem Good.nil (D : HwiDefs) (names : List CString) : Good D names [] where
  fits _ h := absurd h List.not_mem_nil
  named _ h := absurd h List.not_mem_nil
  itemNamed _ h := absurd h List.not_mem_nil
  owned _ h := absurd h List.not_mem_nil
  aligned _ h := absurd h List.not_mem_nil
  pads _ h := absurd h List.not_mem_nil

/-- More names. -/
theorem Good.grow (h : Good D names ts) (hsub : names <+: names') : Good D names' ts := by
  obtain ⟨more, rfl⟩ := hsub
  exact ⟨h.fits, fun t ht hne => place_append (h.named t ht hne) more,
    fun t ht i hi hne => place_append (h.itemNamed t ht i hi hne) more, h.owned, h.aligned, h.pads⟩

/-- One more tag. -/
theorem Good.concat (h : Good D names ts) (hfits : t.Fits)
    (hname : t.info.name.chars ≠ [] → place names t.info.name = some t.name)
    (hitem : ∀ i, t.item = some i → (i.name.chars ≠ [] → place names i.name = some i.itemname) ∧
      (i.owner = D.null_off ∨ i.owner < extent ts))
    (halign : t.info.align ∣ extent ts) (hpad : t.pad = true → t.info = D.padInfo ∧ t.item = none) :
    Good D names (ts ++ [t]) where
  fits u hu := (List.mem_append.mp hu).elim (h.fits u) fun hu => List.mem_singleton.mp hu ▸ hfits
  named u hu := (List.mem_append.mp hu).elim (h.named u) fun hu => List.mem_singleton.mp hu ▸ hname
  itemNamed u hu i hi := by
    rcases List.mem_append.mp hu with hu | hu
    · exact h.itemNamed u hu i hi
    · exact (hitem i (List.mem_singleton.mp hu ▸ hi)).1
  owned u hu i hi := by
    rw [extent_append]
    rcases List.mem_append.mp hu with hu | hu
    · exact (h.owned u hu i hi).imp_right fun hlt => Nat.lt_of_lt_of_le hlt (Nat.le_add_right _ _)
    · exact (hitem i (List.mem_singleton.mp hu ▸ hi)).2.imp_right fun hlt =>
        Nat.lt_of_lt_of_le hlt (Nat.le_add_right _ _)
  aligned x hx := by
    rw [placed_append, Nat.zero_add] at hx
    rcases List.mem_append.mp hx with hx | hx
    · exact h.aligned x hx
    · obtain rfl := List.mem_singleton.mp hx
      exact halign
  pads u hu := (List.mem_append.mp hu).elim (h.pads u) fun hu => List.mem_singleton.mp hu ▸ hpad

theorem LastItem.concat {last : ℕ} (h : LastItem last ts) (ht : t.item = none) :
    LastItem last (ts ++ [t]) := by
  obtain ⟨us, u, vs, rfl, hu, hvs, rfl⟩ := h
  refine ⟨us, u, vs ++ [t], by simp, hu, fun v hv => ?_, rfl⟩
  rcases List.mem_append.mp hv with hv | hv
  · exact hvs v hv
  · exact List.mem_singleton.mp hv ▸ ht

/-! ### The fields of one tag -/

theorem Tag.fields_kids (h : u.item.isSome) (span kids : ℕ) :
    (u.fields span kids)[2]? = some (span / 4) ∧
    (u.fields span kids)[5]? = some kids ∧ (u.fields span kids).length = 6 := by
  obtain ⟨i, hi⟩ := Option.isSome_iff_exists.mp h
  unfold Tag.fields
  rw [hi]
  exact ⟨rfl, rfl, rfl⟩

/-- A tag behind an item makes the item longer. -/
theorem Tag.fields_longer (h : u.item.isSome) (span kids : ℕ) {size : ℕ} (hsize : 4 ∣ size) :
    (u.fields span kids).set 2 (span / 4 + size / 4) = u.fields (span + size) kids := by
  obtain ⟨i, hi⟩ := Option.isSome_iff_exists.mp h
  have hdiv : (span + size) / 4 = span / 4 + size / 4 := by omega
  unfold Tag.fields
  rw [hi, hdiv]
  rfl

/-- An item that is an owner once more. -/
theorem Tag.fields_owner (h : u.item.isSome) (span kids kids' : ℕ) :
    (u.fields span kids).set 5 kids' = u.fields span kids' := by
  obtain ⟨i, hi⟩ := Option.isSome_iff_exists.mp h
  unfold Tag.fields
  rw [hi]
  rfl

/-- A tag in zeros. -/
theorem Tag.Fits.bytes_append (h : t.Fits) (span kids : ℕ) (hn : t.size ≤ n) :
    t.bytes span kids ++ List.replicate (n - t.size) 0 =
      Support.fields 2 (t.fields span kids) ++
        List.replicate (n - 2 * (t.fields span kids).length) 0 := by
  have hlen := h.length_bytes span kids
  rw [Tag.bytes, List.length_append, length_fields, List.length_replicate] at hlen
  rw [Tag.bytes, List.append_assoc, List.replicate_append_replicate]
  congr 2
  omega

/-! ### One tag -/

/-- What a tag may be asked for as: of words, with a prefix, aligned to one or two words. -/
structure TagInfo.Ok (t : TagInfo) : Prop where
  words : 4 ∣ t.size
  four_le : 4 ≤ t.size
  small : t.size ≤ 2 ^ 31 - 258
  align : t.align = 4 ∨ t.align = 8
  name : CString.Short t.name

theorem HwiDefs.Valid.padInfo (hD : D.Valid) : D.padInfo.Ok where
  words := Nat.dvd_refl 4
  four_le := Nat.le_refl 4
  small := show 4 ≤ 2 ^ 31 - 258 by decide
  align := .inl rfl
  name := hD.pad.2

/-- The fields that `alloc_aligned` writes, once there is room. -/
def tagWritten (info : TagInfo) (nm : ℕ) (s : Hwi) : Hwi :=
  { ((s.put s.last_item 2 (s.get s.last_item 2 + info.size / 4)).put s.offset 0 (info.size / 4)).put
    s.offset 1 nm with
    offset := s.offset + info.size }

/-- The name is added and the section grows, and then the fields are written. -/
theorem alloc_aligned_room (hL : L.Valid) {l : List UInt8}
    (h : Stocked L s.page names (l ++ List.replicate n 0))
    (hoff : s.offset = l.length) {info : TagInfo} (hok : info.Ok) :
    alloc_aligned L info s = .error .syspage_overflow ∨ ∃ page nm names' n',
      Stocked L page names' (l ++ List.replicate n' 0) ∧ info.size + 4 ≤ n' ∧ names <+: names' ∧
      (info.name.chars ≠ [] → place names' info.name = some nm) ∧
      alloc_aligned L info s = .ok (s.offset, tagWritten info nm { s with page := page }) := by
  have hsmall := hok.small
  rcases h.string hL hok.name with hover | ⟨nm, page₁, names', hstr, h₁, hsub, hplace⟩
  · refine .inl ?_
    rw [alloc_aligned, hover]
    rfl
  · have hlen := h₁.length_le
    rw [List.length_append, List.length_replicate] at hlen
    have hneed : addW 32 info.size 4 = info.size + 4 := addW_of_lt (by omega)
    have hspare : subW 32 (page₁.size (some .hwinfo)) s.offset = n := by
      rw [h₁.bytes.size, hoff, List.length_append, List.length_replicate,
        subW_of_le (by omega) (by omega), Nat.add_sub_cancel_left]
    rcases h₁.room hL (show info.size + 4 ≤ 2 ^ 31 - 254 by omega) with
      hover | ⟨page₂, n', hgrow, h₂, hn'⟩
    · refine .inl ?_
      rw [alloc_aligned, hstr, ok_bind]
      dsimp only
      rw [hneed, hspare, hover]
      rfl
    · refine .inr ⟨page₂, nm, names', n', h₂, hn', hsub, hplace, ?_⟩
      have hlen₂ := h₂.length_le
      rw [List.length_append, List.length_replicate] at hlen₂
      have hend : addW 32 s.offset info.size = s.offset + info.size := addW_of_lt (by omega)
      rw [alloc_aligned, hstr, ok_bind]
      dsimp only
      rw [hneed, hspare, hgrow, ok_bind]
      simp only [put_offset, hend]
      rfl

/-- A tag behind an item is counted to it. -/
theorem Stocked.bump (hL : L.Valid) {kids : ℕ → ℕ} {m : List UInt8}
    (hfit : ∀ t ∈ us ++ u :: vs, t.Fits)
    (hu : u.item.isSome) (hvs : ∀ v ∈ vs, v.item = none)
    (h : Stocked L s.page names (image kids 0 (us ++ u :: vs) ++ m))
    (ht : t.item = none) (hsize : 4 ∣ t.size) :
    ∃ l, l.length = extent (us ++ u :: vs) ∧
      Stocked L (s.put (extent us) 2 (s.get (extent us) 2 + t.size / 4)).page names (l ++ m) ∧
      image kids 0 ((us ++ u :: vs) ++ [t]) = l ++ t.bytes 0 0 := by
  have hus : (image kids 0 us).length = extent us :=
    length_image fun t ht => hfit t (List.mem_append_left _ ht)
  have hlen : (image kids 0 (us ++ u :: vs)).length = extent (us ++ u :: vs) := length_image hfit
  have hlong := h.length_le
  rw [List.length_append, hlen, extent_append, extent_cons] at hlong
  have hbel : belongs vs = extent vs := belongs_tags hvs
  have hsplit : image kids 0 (us ++ u :: vs) = image kids 0 us ++
      fields 2 (u.fields (u.size + extent vs) (kids (extent us))) ++
          (List.replicate (u.size - 12) 0 ++
        image kids (extent us + u.size) vs) := by
    rw [image_append_item hu, image_cons, (Tag.fields_kids hu _ _).2.2, Nat.zero_add, hbel,
      List.append_assoc]
  rw [hsplit, List.append_assoc] at h
  have hget := h.get hus.symm (Tag.fields_kids hu _ _).1
  have hspan : (u.size + extent vs) / 4 % 2 ^ 16 = (u.size + extent vs) / 4 :=
    Nat.mod_eq_of_lt (by omega)
  have hput := h.put hL hus.symm (j := 2) (by rw [(Tag.fields_kids hu _ _).2.2]; decide)
    (s.get (extent us) 2 + t.size / 4)
  rw [hget, hspan, Tag.fields_longer hu _ _ hsize] at hput
  refine ⟨image kids 0 us ++ fields 2 (u.fields (u.size + extent vs + t.size) (kids (extent us))) ++
    (List.replicate (u.size - 12) 0 ++ image kids (extent us + u.size) vs), ?_, ?_, ?_⟩
  · rw [← hlen, hsplit]
    simp only [List.length_append, length_fields, (Tag.fields_kids hu _ _).2.2]
  · rw [hget, hspan, List.append_assoc]
    exact hput
  · have hvs' : belongs (vs ++ [t]) = extent vs + t.size := by
      rw [belongs_tags fun v hv => (List.mem_append.mp hv).elim (hvs v) fun hv =>
        List.mem_singleton.mp hv ▸ ht, extent_append, extent_cons, extent_nil, Nat.add_zero]
    rw [List.append_assoc us, List.cons_append, image_append_item hu, image_cons,
      (Tag.fields_kids hu _ _).2.2, Nat.zero_add, hvs',
      image_append_tag hvs ht, Nat.add_assoc u.size]
    simp only [List.append_assoc]

/-- Fields in zeros. -/
theorem Stocked.zeros {l : List UInt8} (h : Stocked L s.page names (l ++ List.replicate n 0))
    {k : ℕ} (hk : 2 * k ≤ n) :
    Stocked L s.page names
      (l ++ fields 2 (List.replicate k 0) ++ List.replicate (n - 2 * k) 0) := by
  rw [fields_zeros, List.append_assoc, List.replicate_append_replicate, Nat.add_sub_cancel' hk]
  exact h

/-- **A tag** that is no item is put behind the others. -/
theorem alloc_tag_spec (hL : L.Valid) (h : Kept D L s ts names) (hne : ts ≠ []) {info : TagInfo}
    (hok : info.Ok)
    (halign : info.align ∣ s.offset) {pad : Bool} (hpad : pad = true → info = D.padInfo) :
    alloc_aligned L info s = .error .syspage_overflow ∨ ∃ nm s' names',
      alloc_aligned L info s = .ok (s.offset, s') ∧
      Kept D L s' (ts ++ [⟨info, nm, none, pad⟩]) names' ∧
      names <+: names' := by
  obtain ⟨⟨n, hn, hst⟩, hoff, hlast, hgood⟩ := h
  have hlen : s.offset = (image (kidsOf ts) 0 ts).length := by rw [hoff, length_image hgood.fits]
  rcases alloc_aligned_room hL hst hlen hok with
    hover | ⟨page, nm, names', n', h₁, hn', hsub, hplace, hres⟩
  · exact .inl hover
  refine .inr ⟨nm, _, names', hres, ?_⟩
  set t : Tag := ⟨info, nm, none, pad⟩ with ht
  have hfits : t.Fits := ⟨hok.words, hok.four_le, fun hsome => absurd hsome (by simp [ht])⟩
  obtain ⟨us, u, vs, hts, hu, hvs, hl⟩ := hlast hne
  have hgood' : Good D names' (ts ++ [t]) :=
    (hgood.grow hsub).concat hfits hplace (fun i hi => absurd hi (by simp [ht])) (hoff ▸ halign)
      fun hp => ⟨hpad hp, rfl⟩
  have hfit' := hgood.fits
  rw [hts] at hfit'
  rw [hts] at h₁
  -- the item is made longer, and the prefix is written into the zeros
  obtain ⟨l, hllen, hbump, himage⟩ :=
    Stocked.bump (s := { s with page := page }) hL hfit' hu hvs h₁ rfl (t := t) hok.words
  have htwo := hbump.zeros (k := 2) (by have := hok.four_le; omega)
  have hpos : s.offset = l.length := by rw [hoff, hllen, hts]
  have hzero := htwo.put hL hpos (j := 0) (by decide) (info.size / 4)
  have hone := hzero.put hL hpos (j := 1) (by simp) nm
  refine ⟨⟨⟨n' - info.size, by omega, ?_⟩, ?_, fun _ => ?_, hgood'⟩, hsub⟩
  · have hbytes : l ++ t.bytes 0 0 ++ List.replicate (n' - info.size) 0 =
        l ++ fields 2 [info.size / 4, nm] ++ List.replicate (n' - 2 * 2) 0 := by
      rw [List.append_assoc, List.append_assoc]
      exact congrArg (l ++ ·) (hfits.bytes_append 0 0 (by change info.size ≤ n'; omega))
    rw [kidsOf_tag rfl, hts, himage, hbytes]
    rw [← hl] at hone
    exact hone
  · rw [extent_append, ← hoff]
    rfl
  · have hconcat : LastItem s.last_item ts := ⟨us, u, vs, hts, hu, hvs, hl⟩
    exact hconcat.concat rfl

/-! ### Alignment -/

/-- What was asked for, and where it was put; of an item also its name and its owner. -/
structure Alloc where
  off : ℕ
  info : TagInfo
  item : Option (CString × ℕ)
deriving DecidableEq

/-- The tag, if it was asked for. -/
def Tag.alloc (x : ℕ × Tag) : Option Alloc :=
  if x.2.pad then none else some ⟨x.1, x.2.info, x.2.item.map fun i => (i.name, i.owner)⟩

/-- The tags that were asked for. -/
def allocs (ts : List Tag) : List Alloc := (placed 0 ts).filterMap Tag.alloc

theorem allocs_concat (ts : List Tag) (t : Tag) : allocs (ts ++ [t]) =
    allocs ts ++ if t.pad then []
      else [⟨extent ts, t.info, t.item.map fun i => (i.name, i.owner)⟩] := by
  rw [allocs, placed_append, List.filterMap_append, Nat.zero_add]
  congr 1
  cases hp : t.pad with
  | true => simp [Tag.alloc, hp]
  | false => simp [Tag.alloc, hp]

theorem Kept.offset_le (h : Kept D L s ts names) : s.offset ≤ 2 ^ 16 := by
  obtain ⟨n, -, hst⟩ := h.stocked
  have hlen := hst.length_le
  rw [List.length_append, length_image h.good.fits, ← h.offset] at hlen
  omega

theorem Kept.offset_words (h : Kept D L s ts names) : 4 ∣ s.offset :=
  h.offset ▸ extent_words h.good.fits

/-- How far an offset is from being aligned. -/
theorem align_gap {align : ℕ} (hoff : s.offset ≤ 2 ^ 16) (hwords : 4 ∣ s.offset)
    (halign : align = 4 ∨ align = 8) :
    subW 32 (round 64 s.offset align % 2 ^ 32) s.offset = if align ∣ s.offset then 0 else 4 := by
  rcases halign with rfl | rfl
  · have hround : round 64 s.offset 4 = (s.offset + 3) / 4 * 4 :=
      round_two_pow (k := 2) (by decide) (by omega)
    rw [if_pos hwords, hround, Nat.mod_eq_of_lt (by omega), subW_of_le (by omega) (by omega)]
    omega
  · have hround : round 64 s.offset 8 = (s.offset + 7) / 8 * 8 :=
      round_two_pow (k := 3) (by decide) (by omega)
    rw [hround, Nat.mod_eq_of_lt (by omega), subW_of_le (by omega) (by omega)]
    split
    · omega
    · omega

/-- At an aligned offset no pad is needed. -/
theorem align_tag_of_dvd {f : Hwi → Except Crash (ℕ × Hwi)} {align : ℕ} (hoff : s.offset ≤ 2 ^ 16)
    (hwords : 4 ∣ s.offset) (halign : align = 4 ∨ align = 8) (hdvd : align ∣ s.offset) :
      align_tag f align s = .ok s := by
  rw [align_tag, align_gap hoff hwords halign, if_pos hdvd, if_neg (by decide)]

theorem hwi_alloc_tag_of_dvd {info : TagInfo} (hoff : s.offset ≤ 2 ^ 16) (hwords : 4 ∣ s.offset)
    (hok : info.Ok)
    (hdvd : info.align ∣ s.offset) (depth : ℕ) :
      hwi_alloc_tag D L (depth + 1) info s = alloc_aligned L info s := by
  rw [hwi_alloc_tag, align_tag_of_dvd hoff hwords hok.align hdvd, ok_bind]

/-- **Alignment**: there is a pad behind the tags if the offset is not aligned. -/
theorem align_tag_spec (hL : L.Valid) (hD : D.Valid) (h : Kept D L s ts names) {align : ℕ}
    (halign : align = 4 ∨ align = 8) (depth : ℕ) :
    align_tag (hwi_alloc_tag D L (depth + 1) D.padInfo) align s = .error .syspage_overflow ∨
      ∃ s' ts' names',
      align_tag (hwi_alloc_tag D L (depth + 1) D.padInfo) align s = .ok s' ∧
      Kept D L s' ts' names' ∧
      allocs ts' = allocs ts ∧ align ∣ s'.offset ∧ ts <+: ts' ∧ names <+: names' := by
  have hoff := h.offset_le
  have hwords := h.offset_words
  by_cases hdvd : align ∣ s.offset
  · exact .inr ⟨s, ts, names, align_tag_of_dvd hoff hwords halign hdvd, h, rfl, hdvd,
      List.prefix_rfl, List.prefix_rfl⟩
  · have hne : ts ≠ [] := by
      rintro rfl
      exact hdvd (h.offset ▸ Nat.dvd_zero align)
    rw [align_tag, align_gap hoff hwords halign, if_neg hdvd, if_pos (by decide),
      hwi_alloc_tag_of_dvd hoff hwords hD.padInfo hwords]
    rcases alloc_tag_spec hL h hne hD.padInfo hwords (fun _ => rfl : true = true → _) with
      hover | ⟨nm, s', names', hres, hkept, hsub⟩
    · exact .inl (by rw [hover]; rfl)
    · refine .inr ⟨s', _, names', by rw [hres]; rfl, hkept, ?_, ?_, List.prefix_append _ _, hsub⟩
      · rw [allocs_concat]
        exact List.append_nil _
      · have hend : s'.offset = s.offset + 4 := by rw [hkept.offset, extent_append, ← h.offset]; rfl
        rcases halign with rfl | rfl
        · exact absurd hwords hdvd
        · omega

/-- **`hwi_alloc_tag`** behind an item: the page overflows, or the tag is behind the others. -/
theorem hwi_alloc_tag_spec (hL : L.Valid) (hD : D.Valid) (h : Kept D L s ts names) (hne : ts ≠ [])
    {info : TagInfo} (hok : info.Ok) (depth : ℕ) :
    hwi_alloc_tag D L (depth + 2) info s = .error .syspage_overflow ∨ ∃ off s' ts' names',
      hwi_alloc_tag D L (depth + 2) info s = .ok (off, s') ∧ Kept D L s' ts' names' ∧ ts' ≠ [] ∧
      allocs ts' = allocs ts ++ [⟨off, info, none⟩] := by
  rw [hwi_alloc_tag]
  rcases align_tag_spec hL hD h hok.align depth with
    hover | ⟨s₁, ts₁, names₁, hres₁, h₁, hall, hdvd, hpre, -⟩
  · exact .inl (by rw [hover]; rfl)
  rw [hres₁, ok_bind]
  have hne₁ : ts₁ ≠ [] := by
    rintro rfl
    exact hne (List.prefix_nil.mp hpre)
  rcases alloc_tag_spec hL h₁ hne₁ hok hdvd (fun h => absurd h (by decide) : false = true → _) with
    hover | ⟨nm, s', names', hres, hkept, -⟩
  · exact .inl hover
  · refine .inr ⟨s₁.offset, s', _, names', hres, hkept, by simp, ?_⟩
    rw [allocs_concat, hall, h₁.offset]
    rfl

/-! ### Items -/

/-- The owner of one more item. -/
theorem Stocked.owner (hL : L.Valid) {kids kids' : ℕ → ℕ} {m : List UInt8}
    (hfit : ∀ t ∈ us ++ u :: vs, t.Fits)
    (hu : u.item.isSome) (h : Stocked L s.page names (image kids 0 (us ++ u :: vs) ++ m))
    (hlt : kids (extent us) < 2 ^ 16)
    (hkids : ∀ x, 4 ∣ x → x < extent (us ++ u :: vs) → kids' x = kids x + if x = extent us then 1
      else 0) :
    Stocked L (s.put (extent us) 5 (s.get (extent us) 5 + 1)).page names
      (image kids' 0 (us ++ u :: vs) ++ m) := by
  have hfus : ∀ t ∈ us, t.Fits := fun t ht => hfit t (List.mem_append_left _ ht)
  have hfvs : ∀ t ∈ vs, t.Fits :=
    fun t ht => hfit t (List.mem_append_right _ (List.mem_cons_of_mem _ ht))
  have hfu : u.Fits := hfit u (List.mem_append_right _ List.mem_cons_self)
  have hus : (image kids 0 us).length = extent us := length_image hfus
  have hpos := hfu.four_le
  have hwords := extent_words hfus
  rw [extent_append, extent_cons] at hkids
  have hfront : image kids' 0 us = image kids 0 us := by
    refine image_congr (Nat.dvd_zero 4) (fun x hx _ hlt => ?_) hfus
    rw [hkids x hx (by omega), if_neg (by omega), Nat.add_zero]
  have hback : image kids' (extent us + u.size) vs = image kids (extent us + u.size) vs := by
    refine image_congr (Nat.dvd_add hwords hfu.words) (fun x hx hle hlt => ?_) hfvs
    rw [hkids x hx (by omega), if_neg (by omega), Nat.add_zero]
  have hself : kids' (extent us) = kids (extent us) + 1 := by
    rw [hkids _ hwords (by omega), if_pos rfl]
  have hsplit : ∀ k : ℕ → ℕ, image k 0 (us ++ u :: vs) = image k 0 us ++
      fields 2 (u.fields (u.size + belongs vs) (k (extent us))) ++
          (List.replicate (u.size - 12) 0 ++
        image k (extent us + u.size) vs) := by
    intro k
    rw [image_append_item hu, image_cons, (Tag.fields_kids hu _ _).2.2, Nat.zero_add,
      List.append_assoc]
  rw [hsplit, List.append_assoc] at h
  have hget := h.get hus.symm (Tag.fields_kids hu _ _).2.1
  rw [Nat.mod_eq_of_lt hlt] at hget
  have hput := h.put hL hus.symm (j := 5) (by rw [(Tag.fields_kids hu _ _).2.2]; decide)
    (s.get (extent us) 5 + 1)
  rw [hget, Tag.fields_owner hu] at hput
  rw [hget, hsplit, hfront, hback, hself, List.append_assoc]
  exact hput

/-- The fields of a new item are written into zeros. -/
theorem Stocked.item (hL : L.Valid) {l : List UInt8}
    (h : Stocked L s.page names (l ++ List.replicate n 0)) (hn : 12 ≤ n)
    (hoff : s.offset = l.length) (hlast : s.last_item = s.offset) (info : TagInfo)
    (nm itemname owner : ℕ) :
    Stocked L (((tagWritten info nm s).put s.offset 3 itemname).put s.offset 4 owner).page names
      (l ++ fields 2 [info.size / 4, nm, info.size / 4, itemname, owner, 0] ++
        List.replicate (n - 12) 0) := by
  have hsix := h.zeros (k := 6) hn
  have hget : s.get s.last_item 2 = 0 := by
    rw [hlast]
    exact hsix.get hoff (show (List.replicate 6 0)[2]? = some 0 from rfl)
  have hspan := hsix.put hL hoff (j := 2) (by decide) (info.size / 4)
  have hsize := hspan.put hL (s := s.put s.offset 2 (info.size / 4)) hoff (j := 0) (by simp)
    (info.size / 4)
  have hname := hsize.put hL
    (s := (s.put s.offset 2 (info.size / 4)).put s.offset 0 (info.size / 4)) hoff (j := 1)
    (by simp) nm
  have hitem := hname.put hL
    (s := ((s.put s.offset 2 (info.size / 4)).put s.offset 0 (info.size / 4)).put s.offset 1 nm)
    hoff (j := 3) (by simp) itemname
  have howner := hitem.put hL
    (s := (((s.put s.offset 2 (info.size / 4)).put s.offset 0 (info.size / 4)).put s.offset 1
    nm).put s.offset 3 itemname) hoff (j := 4) (by simp) owner
  unfold tagWritten
  rw [hget, Nat.zero_add, hlast]
  exact howner

/-- `owner` is the offset of an item among the tags. -/
def IsItem (ts : List Tag) (owner : ℕ) : Prop :=
  ∃ us u vs, ts = us ++ u :: vs ∧ u.item.isSome ∧ owner = extent us

theorem IsItem.grow {owner : ℕ} (h : IsItem ts owner) (hpre : ts <+: us) : IsItem us owner := by
  obtain ⟨more, rfl⟩ := hpre
  obtain ⟨us, u, vs, rfl, hu, hx⟩ := h
  exact ⟨us, u, vs ++ more, by simp, hu, hx⟩

theorem IsItem.lt {owner : ℕ} (h : IsItem ts owner) (hfit : ∀ t ∈ ts, t.Fits) :
    owner < extent ts := by
  obtain ⟨us, u, vs, rfl, hu, rfl⟩ := h
  have hpos := (hfit u (by simp)).four_le
  rw [extent_append, extent_cons]
  omega

theorem kidsOf_item {i : ItemPart} (ht : t.item = some i) (ts : List Tag) (x : ℕ) :
    kidsOf (ts ++ [t]) x = kidsOf ts x + if x = i.owner then 1 else 0 := by
  rw [kidsOf_concat]
  simp [ht, eq_comm]

/-- Nothing behind the tags is an owner. -/
theorem Good.kids_none (h : Good D names ts) (hD : D.Valid) (hx : extent ts ≤ x) (hwords : 4 ∣ x) :
    kidsOf ts x = 0 := by
  refine List.countP_eq_zero.mpr fun u hu => ?_
  rw [decide_eq_true_iff]
  intro hsome
  obtain ⟨i, hi, rfl⟩ := Option.map_eq_some_iff.mp hsome
  rcases h.owned u hu i hi with hnull | hlt
  · exact hD.null_off (hnull ▸ hwords)
  · omega

/-- A new item has no kids. -/
theorem image_new_item (h : Good D names ts) (hD : D.Valid) {i : ItemPart} (ht : t.item = some i)
    (howner : i.owner = D.null_off ∨ i.owner < extent ts) :
        image (kidsOf (ts ++ [t])) 0 (ts ++ [t]) =
      image (kidsOf (ts ++ [t])) 0 ts ++ t.bytes t.size 0 := by
  have hwords : 4 ∣ extent ts := extent_words h.fits
  have hne : extent ts ≠ i.owner := by
    rcases howner with hnull | hlt
    · rintro heq
      exact hD.null_off (hnull ▸ heq ▸ hwords)
    · omega
  have hself : kidsOf (ts ++ [t]) (extent ts) = 0 := by
    rw [kidsOf_item ht, h.kids_none hD (Nat.le_refl _) hwords, if_neg hne]
  rw [image_append_item (by rw [ht]; rfl), Nat.zero_add, image, hself]
  exact congrArg _ (List.append_nil _)

/-- The owner of a new item, if it has one, has a kid more. -/
theorem Stocked.adopted (hL : L.Valid) (hD : D.Valid) {m : List UInt8} (hgood : Good D names ts)
    {i : ItemPart} (ht : t.item = some i) (howner : i.owner = D.null_off ∨ IsItem ts i.owner)
    (h : Stocked L s.page names' (image (kidsOf ts) 0 ts ++ m)) :
    Stocked L (if i.owner ≠ D.null_off then s.put i.owner 5 (s.get i.owner 5 + 1)
        else s).page names'
      (image (kidsOf (ts ++ [t])) 0 ts ++ m) := by
  have hfit := hgood.fits
  have hkids := kidsOf_item ht ts
  rcases howner with hnull | ⟨us, u, vs, rfl, hu, hx⟩
  · rw [if_neg (not_not.mpr hnull)]
    have hsame : image (kidsOf (ts ++ [t])) 0 ts = image (kidsOf ts) 0 ts := by
      refine image_congr (Nat.dvd_zero 4) (fun x hx _ _ => ?_) hfit
      have hne : x ≠ i.owner := by
        rintro rfl
        exact hD.null_off (hnull ▸ hx)
      rw [hkids, if_neg hne, Nat.add_zero]
    rw [hsame]
    exact h
  · have hnn : i.owner ≠ D.null_off := fun heq =>
      hD.null_off (heq ▸ hx ▸ extent_words fun t ht => hfit t (List.mem_append_left _ ht))
    rw [if_pos hnn]
    rw [hx] at hkids ⊢
    have hcount := kidsOf_le (us ++ u :: vs) (extent us)
    have hext := length_le_extent hfit
    have hlen : (image (kidsOf (us ++ u :: vs)) 0 (us ++ u :: vs)).length =
      extent (us ++ u :: vs) := length_image hfit
    have hlong := h.length_le
    rw [List.length_append, hlen] at hlong
    exact Stocked.owner hL hfit hu h (by omega) fun x _ _ => hkids x

/-- **`hwi_alloc_item`**: the page overflows, or the item is behind the others, and its owner has a
kid more. -/
theorem hwi_alloc_item_spec (hL : L.Valid) (hD : D.Valid) (h : Kept D L s ts names) {info : TagInfo}
    (hok : info.Ok)
    (hroom : 12 ≤ info.size) {itemname : CString} (hname : CString.Short itemname) {owner : ℕ}
    (howner : owner = D.null_off ∨ IsItem ts owner) (depth : ℕ) :
    hwi_alloc_item D L (depth + 1) info itemname owner s = .error .syspage_overflow ∨
      ∃ off s' ts' names',
      hwi_alloc_item D L (depth + 1) info itemname owner s = .ok (off, s') ∧
      Kept D L s' ts' names' ∧ ts' ≠ [] ∧
      allocs ts' = allocs ts ++ [⟨off, info, some (itemname, owner)⟩] := by
  obtain ⟨n, hn, hst⟩ := h.stocked
  rw [hwi_alloc_item]
  rcases hst.string hL hname with hover | ⟨saved_in, page₁, names₁, hstr, hst₁, hsub₁, hplace₁⟩
  · exact .inl (by rw [hover]; rfl)
  rw [hstr, ok_bind]
  dsimp only
  have hkept₁ : Kept D L { s with page := page₁ } ts names₁ :=
    ⟨⟨n, hn, hst₁⟩, h.offset, h.last, h.good.grow hsub₁⟩
  rcases align_tag_spec hL hD hkept₁ hok.align depth with
    hover | ⟨s₂, ts₂, names₂, hres₂, h₂, hall, hdvd, hpre, hsub₂⟩
  · exact .inl (by rw [hover]; rfl)
  rw [hres₂, ok_bind]
  obtain ⟨n₂, hn₂, hst₂⟩ := h₂.stocked
  have hfit₂ := h₂.good.fits
  have hlen₂ : s₂.offset = (image (kidsOf ts₂) 0 ts₂).length := by
    rw [h₂.offset, length_image hfit₂]
  have htag : hwi_alloc_tag D L (depth + 1) info { s₂ with last_item := s₂.offset } =
      alloc_aligned L info { s₂ with last_item := s₂.offset } :=
    hwi_alloc_tag_of_dvd (s := { s₂ with last_item := s₂.offset }) h₂.offset_le h₂.offset_words hok
      hdvd depth
  rw [htag]
  rcases alloc_aligned_room hL (s := { s₂ with last_item := s₂.offset }) hst₂ hlen₂ hok with
    hover | ⟨page₃, nm, names₃, n₃, hst₃, hn₃, hsub₃, hplace₃, hres₃⟩
  · exact .inl (by rw [hover]; rfl)
  rw [hres₃, ok_bind]
  dsimp only
  set t : Tag := ⟨info, nm, some ⟨itemname, saved_in, owner⟩, false⟩ with ht
  have hfits : t.Fits := ⟨hok.words, hok.four_le, fun _ => hroom⟩
  -- the owner, if there is one, is in front of the new item
  have howner₂ : owner = D.null_off ∨ IsItem ts₂ owner :=
    howner.imp_right fun hitem => hitem.grow hpre
  have hlt : owner = D.null_off ∨ owner < extent ts₂ :=
    howner₂.imp_right fun hitem => hitem.lt hfit₂
  have hgood : Good D names₃ (ts₂ ++ [t]) := by
    refine (h₂.good.grow hsub₃).concat hfits hplace₃ ?_ (h₂.offset ▸ hdvd) fun hp =>
      absurd hp (by simp [ht])
    intro i hi
    obtain rfl : _ = i := Option.some.inj hi
    obtain ⟨more, hmore⟩ := hsub₂.trans hsub₃
    exact ⟨fun hne => hmore ▸ place_append (hplace₁ hne) more, hlt⟩
  have hitem := Stocked.item hL (s := ⟨page₃, s₂.offset, s₂.offset⟩) hst₃
    (by have := hok.four_le; omega) hlen₂ rfl info nm saved_in owner
  have hbytes : image (kidsOf ts₂) 0 ts₂ ++
      fields 2 [info.size / 4, nm, info.size / 4, saved_in, owner, 0] ++
      List.replicate (n₃ - 12) 0 = image (kidsOf ts₂) 0 ts₂ ++
        (t.bytes t.size 0 ++ List.replicate (n₃ - t.size) 0) := by
    rw [List.append_assoc, hfits.bytes_append t.size 0 (by change info.size ≤ n₃; omega)]
    rfl
  rw [hbytes] at hitem
  have hadopted := hitem.adopted hL hD h₂.good (t := t) rfl howner₂
  rw [← List.append_assoc, ← image_new_item h₂.good hD rfl hlt] at hadopted
  refine .inr ⟨s₂.offset, _, ts₂ ++ [t], names₃, rfl,
    ⟨⟨n₃ - t.size, by change 4 ≤ n₃ - info.size; omega, hadopted⟩, ?_, fun _ => ?_, hgood⟩, by simp,
    ?_⟩
  · rw [extent_append, ← h₂.offset]
    split
    · rfl
    · rfl
  · refine ⟨ts₂, t, [], rfl, rfl, fun _ hv => absurd hv List.not_mem_nil, ?_⟩
    rw [← h₂.offset]
    split
    · rfl
    · rfl
  · rw [allocs_concat, hall, h₂.offset]
    rfl

end Startup
