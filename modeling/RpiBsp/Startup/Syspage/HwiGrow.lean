import RpiBsp.Startup.Syspage.HwiAlloc

/-!
# Startup — Syspage — growing a tag

`hwi_grow_tag`, and what callers store in their tags.  The argument of `hwi_grow_tag` is called
`offset`, as the static variable is: it is the argument that is moved on, so the next tag is put
where the last one ended before it was grown.

* `Seg`, `contents` — the tags as they are, with their fields and what stands behind them.
* `Owned` — a tag as its caller has it: the sizes of items and the numbers of kids are counts, and
are not part of it.
* `Lined` — the section is tags one behind the other; the static variable is as many bytes behind
  their end as they have grown by.
* `Lined.alloc_tag`, `Lined.alloc_item`, `Lined.grow`, `Lined.fill` — what one call does to them.
-/

namespace Startup

open Support

/-- `hwi_grow_tag`. -/
def hwi_grow_tag (L : Layout) (offset size : ℕ) (s : Hwi) : Except Crash (ℕ × Hwi) := do
  let page ← grow_syspage_section L (some .hwinfo) size s.page
  let s := { s with page := page }
  let s := s.put s.last_item 2 (s.get s.last_item 2 + size / 4)
  let s := s.put offset 0 (s.get offset 0 + size / 4)
  return (offset, s)

/-! ### Tags as they are -/

/-- A tag with all its bytes. -/
structure Seg where
  fields : List ℕ
  body : List UInt8
  pad : Bool

namespace Seg

def size (g : Seg) : ℕ := 2 * g.fields.length + g.body.length

def bytes (g : Seg) : List UInt8 := Support.fields 2 g.fields ++ g.body

/-- A field as it is read. -/
def word (g : Seg) (j : ℕ) : ℕ := g.fields.getD j 0 % 2 ^ 16

/-- A tag has two fields, and an item has six. -/
structure Fits (g : Seg) : Prop where
  kind : g.fields.length = 2 ∨ g.fields.length = 6
  first : g.fields[0]? = some (g.size / 4)
  words : 4 ∣ g.size

@[simp] theorem length_bytes (g : Seg) : g.bytes.length = g.size := by
  rw [bytes, List.length_append, length_fields, size]

/-- What a count changes in a tag: the size of an item, and the number of its kids. -/
structure Like (g g' : Seg) : Prop where
  length : g'.fields.length = g.fields.length
  same : ∀ j, j ≠ 2 → j ≠ 5 → g'.fields[j]? = g.fields[j]?
  body : g'.body = g.body
  pad : g'.pad = g.pad

variable {g g' : Seg}

theorem Like.refl (g : Seg) : Like g g := ⟨rfl, fun _ _ _ => rfl, rfl, rfl⟩

theorem Like.size (h : Like g g') : g'.size = g.size := by
  rw [Seg.size, Seg.size, h.length, h.body]

theorem Like.fits (h : Like g g') (hg : g.Fits) : g'.Fits where
  kind := h.length ▸ hg.kind
  first := by rw [h.same 0 (by decide) (by decide), h.size, hg.first]
  words := h.size ▸ hg.words

theorem Like.word (h : Like g g') {j : ℕ} (h₂ : j ≠ 2) (h₅ : j ≠ 5) : g'.word j = g.word j := by
  rw [Seg.word, Seg.word, List.getD_eq_getElem?_getD, List.getD_eq_getElem?_getD, h.same j h₂ h₅]

theorem Fits.four_le (h : g.Fits) : 4 ≤ g.size := by
  have hkind := h.kind
  rw [Seg.size]
  omega

/-- One field of a tag. -/
def set (g : Seg) (j v : ℕ) : Seg := { g with fields := g.fields.set j v }

theorem like_set (g : Seg) {j : ℕ} (hj : j = 2 ∨ j = 5) (v : ℕ) : Like g (g.set j v) where
  length := List.length_set
  same i h₂ h₅ := List.getElem?_set_ne (by omega)
  body := rfl
  pad := rfl

end Seg

/-- The bytes of tags. -/
def contents (gs : List Seg) : List UInt8 := gs.flatMap Seg.bytes

variable {gs gs' us vs : List Seg} {g g' u : Seg} {D : HwiDefs} {L : Layout} {s s' : Hwi}
    {names : List CString}
  {m : List UInt8} {n off c : ℕ}

@[simp] theorem contents_append (gs gs' : List Seg) :
    contents (gs ++ gs') = contents gs ++ contents gs' :=
  List.flatMap_append

@[simp] theorem contents_cons (g : Seg) (gs : List Seg) :
    contents (g :: gs) = g.bytes ++ contents gs := rfl

@[simp] theorem length_contents (gs : List Seg) : (contents gs).length = total Seg.size gs := by
  induction gs with
  | nil => rfl
  | cons g gs ih => rw [contents_cons, List.length_append, Seg.length_bytes, ih, total_cons]

/-! ### Fields in the section -/

theorem contents_split (us vs : List Seg) (u : Seg) (m : List UInt8) :
    contents (us ++ u :: vs) ++ m =
    contents us ++ fields 2 u.fields ++ (u.body ++ contents vs ++ m) := by
  simp only [contents_append, contents_cons, Seg.bytes, List.append_assoc]

theorem Stocked.word (h : Stocked L s.page names (contents (us ++ u :: vs) ++ m)) {j : ℕ}
    (hj : j < u.fields.length) :
    s.get (total Seg.size us) j = u.word j := by
  rw [contents_split] at h
  rw [h.get (length_contents us).symm (List.getElem?_eq_getElem hj), Seg.word,
    List.getD_eq_getElem _ _ hj]

theorem Stocked.setWord (hL : L.Valid)
    (h : Stocked L s.page names (contents (us ++ u :: vs) ++ m)) {j : ℕ}
    (hj : j < u.fields.length) (v : ℕ) :
    Stocked L (s.put (total Seg.size us) j v).page names
      (contents (us ++ u.set j v :: vs) ++ m) := by
  rw [contents_split] at h ⊢
  exact h.put hL (length_contents us).symm hj v

/-- Lists that are related element by element are split at one place. -/
theorem forall₂_split {R : Seg → Seg → Prop} (h : List.Forall₂ R (us ++ u :: vs) gs) : ∃ us' u' vs',
    gs = us' ++ u' :: vs' ∧ List.Forall₂ R us us' ∧ R u u' ∧ List.Forall₂ R vs vs' := by
  induction us generalizing gs with
  | nil =>
      cases h with
      | cons hu hvs => exact ⟨[], _, _, rfl, .nil, hu, hvs⟩
  | cons g us ih =>
      cases h with
      | cons hg hrest =>
          obtain ⟨us', u', vs', rfl, hus, hu, hvs⟩ := ih hrest
          exact ⟨_ :: us', u', vs', rfl, .cons hg hus, hu, hvs⟩

/-- `last` is the offset of the last item, and its size is `c` words. -/
def LastSeg (last c : ℕ) (gs : List Seg) : Prop :=
  ∃ us u vs, gs = us ++ u :: vs ∧ u.fields.length = 6 ∧ (∀ v ∈ vs, v.fields.length = 2) ∧
    last = total Seg.size us ∧
    u.fields[2]? = some c

theorem LastSeg.concat {last : ℕ} (h : LastSeg last c gs) (hg : g.fields.length = 2) :
    LastSeg last c (gs ++ [g]) := by
  obtain ⟨us, u, vs, rfl, hu, hvs, hlast, hc⟩ := h
  refine ⟨us, u, vs ++ [g], by simp, hu, fun v hv => ?_, hlast, hc⟩
  rcases List.mem_append.mp hv with hv | hv
  · exact hvs v hv
  · exact List.mem_singleton.mp hv ▸ hg

/-- The last tag may have another body. -/
theorem LastSeg.replace {last : ℕ} (h : LastSeg last c (gs ++ [g]))
    (hlen : g'.fields.length = g.fields.length)
    (hc : g'.fields[2]? = g.fields[2]?) : LastSeg last c (gs ++ [g']) := by
  obtain ⟨us, u, vs, hsplit, hu, hvs, hlast, hspan⟩ := h
  rcases List.eq_nil_or_concat vs with rfl | ⟨vs, v, rfl⟩
  · obtain ⟨rfl, hg⟩ := List.append_inj' hsplit rfl
    obtain rfl := List.singleton_inj.mp hg
    exact ⟨gs, g', [], rfl, hlen.trans hu, fun v hv =>
      absurd hv List.not_mem_nil, hlast, hc.trans hspan⟩
  · rw [List.concat_eq_append, ← List.cons_append, ← List.append_assoc] at hsplit
    obtain ⟨rfl, hg⟩ := List.append_inj' hsplit rfl
    obtain rfl := List.singleton_inj.mp hg
    refine ⟨us, u, vs ++ [g'], by simp, hu, fun w hw => ?_, hlast, hspan⟩
    rcases List.mem_append.mp hw with hw | hw
    · exact hvs w (by simp [hw])
    · rw [List.mem_singleton.mp hw, hlen]
      exact hvs g (by simp)

/-- **A count**: the last item is longer by some words, and the tags are otherwise as they were. -/
theorem Stocked.count (hL : L.Valid) (h : Stocked L s.page names (contents gs ++ m))
    (hlast : LastSeg s.last_item c gs)
    (hc : c < 2 ^ 16) (k : ℕ) :
        ∃ gs', List.Forall₂ Seg.Like gs gs' ∧ LastSeg s.last_item (c + k) gs' ∧
      Stocked L (s.put s.last_item 2 (s.get s.last_item 2 + k)).page names (contents gs' ++ m) := by
  obtain ⟨us, u, vs, rfl, hu, hvs, hlast, hspan⟩ := hlast
  have htwo : 2 < u.fields.length := by omega
  have hget : s.get s.last_item 2 = c := by
    rw [hlast, h.word htwo, Seg.word, List.getD_eq_getElem?_getD, hspan]
    exact Nat.mod_eq_of_lt hc
  have hput := h.setWord hL htwo (c + k)
  rw [hget, hlast]
  refine ⟨us ++ u.set 2 (c + k) :: vs, ?_, ⟨us, u.set 2 (c + k), vs, rfl, ?_, hvs, rfl, ?_⟩, hput⟩
  · have hrefl : ∀ gs : List Seg, List.Forall₂ Seg.Like gs gs :=
      fun gs => List.forall₂_same.mpr fun g _ => .refl g
    exact List.rel_append (hrefl us) (.cons (u.like_set (.inl rfl) _) (hrefl vs))
  · exact (List.length_set).trans hu
  · exact List.getElem?_set_self htwo

/-! ### What a caller has -/

/-- A tag as its caller has it: where it was put, how large it is, the offset of its name, of an
item that of its own name and its owner, and what is stored behind the fields. -/
structure Owned where
  off : ℕ
  size : ℕ
  name : ℕ
  item : Option (ℕ × ℕ)
  body : List UInt8
deriving DecidableEq

/-- Where the body begins. -/
def Owned.start (a : Owned) : ℕ := a.off + if a.item.isSome then 12 else 4

/-- A tag that was asked for. -/
def Seg.owned (x : ℕ × Seg) : Option Owned :=
  if x.2.pad then none
  else some ⟨x.1, x.2.size, x.2.word 1, if x.2.fields.length = 6 then some (x.2.word 3, x.2.word 4)
    else none, x.2.body⟩

theorem owned_eq_some {x : ℕ × Seg} {a : Owned} (h : Seg.owned x = some a) : x.2.pad = false ∧
    a = ⟨x.1, x.2.size, x.2.word 1, if x.2.fields.length = 6 then some (x.2.word 3, x.2.word 4)
        else none,
      x.2.body⟩ := by
  unfold Seg.owned at h
  split at h
  · cases h
  · exact ⟨Bool.eq_false_of_not_eq_true ‹_›, (Option.some.inj h).symm⟩

/-- The tags that were asked for. -/
def owned (gs : List Seg) : List Owned := (laid Seg.size 0 gs).filterMap Seg.owned

theorem owned_append (gs gs' : List Seg) :
    owned (gs ++ gs') = owned gs ++ (laid Seg.size (total Seg.size gs) gs').filterMap
      Seg.owned := by
  rw [owned, laid_append, List.filterMap_append, Nat.zero_add]
  rfl

theorem owned_pad (gs : List Seg) (hg : g.pad = true) : owned (gs ++ [g]) = owned gs := by
  rw [owned_append]
  simp [laid, Seg.owned, hg]

theorem like_total (h : List.Forall₂ Seg.Like gs gs') : total Seg.size gs' = total Seg.size gs := by
  induction h with
  | nil => rfl
  | cons hg _ ih => rw [total_cons, total_cons, hg.size, ih]

theorem Seg.Like.owned (h : Seg.Like g g') (off : ℕ) :
    Seg.owned (off, g') = Seg.owned (off, g) := by
  simp only [Seg.owned, h.pad, h.size, h.length, h.body, h.word (show 1 ≠ 2 by decide) (by decide),
    h.word (show 3 ≠ 2 by decide) (by decide), h.word (show 4 ≠ 2 by decide) (by decide)]

/-- Counts are no concern of a caller. -/
theorem like_owned (h : List.Forall₂ Seg.Like gs gs') : owned gs' = owned gs := by
  have hlaid : ∀ off, (laid Seg.size off gs').filterMap Seg.owned = (laid Seg.size off gs).filterMap
      Seg.owned := by
    induction h with
    | nil => exact fun _ => rfl
    | cons hg _ ih =>
        intro off
        rw [laid, laid, hg.size, List.filterMap_cons, List.filterMap_cons, hg.owned off, ih]
  exact hlaid 0

theorem like_fits (h : List.Forall₂ Seg.Like gs gs') (hfits : ∀ g ∈ gs, g.Fits) :
    ∀ g ∈ gs', g.Fits := by
  induction h with
  | nil => exact hfits
  | cons hg _ ih =>
      rw [List.forall_mem_cons] at hfits ⊢
      exact ⟨hg.fits hfits.1, ih hfits.2⟩

/-- A tag that was asked for, among the others. -/
theorem mem_owned {a : Owned} (h : a ∈ owned gs) : ∃ us u vs, gs = us ++ u :: vs ∧ u.pad = false ∧
    a = ⟨total Seg.size us, u.size, u.word 1, if u.fields.length = 6 then some (u.word 3, u.word 4)
        else none,
      u.body⟩ := by
  obtain ⟨⟨x, u⟩, hx, ha⟩ := List.mem_filterMap.mp h
  obtain ⟨us, vs, rfl, rfl⟩ := mem_laid hx
  obtain ⟨hpad, rfl⟩ := owned_eq_some ha
  exact ⟨us, u, vs, rfl, hpad, by rw [Nat.zero_add]⟩

/-! ### The section -/

/-- The last tag is no pad. -/
def Closed (gs : List Seg) : Prop := ∀ us g, gs = us ++ [g] → g.pad = false

theorem closed_concat (gs : List Seg) (hg : g.pad = false) : Closed (gs ++ [g]) := by
  intro us u hsplit
  obtain ⟨-, hu⟩ := List.append_inj' hsplit rfl
  rw [← List.singleton_inj.mp hu, hg]

/-- It may be changed otherwise. -/
theorem Closed.replace (h : Closed (us ++ u :: vs)) (hg : g.pad = u.pad) :
    Closed (us ++ g :: vs) := by
  rcases List.eq_nil_or_concat vs with rfl | ⟨vs, v, rfl⟩
  · exact closed_concat us (hg.trans (h us u rfl))
  · have hv : v.pad = false := h (us ++ u :: vs) v (by simp)
    have hclosed := closed_concat (us ++ g :: vs) hv
    rwa [List.append_assoc, List.cons_append, ← List.concat_eq_append] at hclosed

/-- A pad is a prefix, and has the name of one. -/
def Seg.PadIn (D : HwiDefs) (names : List CString) (g : Seg) : Prop :=
  g.pad = true → g.size = 4 ∧ ∃ o, place names D.pad = some o ∧ g.fields[1]? = some o

theorem like_pads (h : List.Forall₂ Seg.Like gs gs') (hpads : ∀ g ∈ gs, Seg.PadIn D names g) :
    ∀ g ∈ gs', Seg.PadIn D names g := by
  induction h with
  | nil => exact hpads
  | cons hg _ ih =>
      rw [List.forall_mem_cons] at hpads ⊢
      refine ⟨fun hpad => ?_, ih hpads.2⟩
      rw [hg.size, hg.same 1 (by decide) (by decide)]
      exact hpads.1 (hg.pad ▸ hpad)

theorem Seg.PadIn.grow {names' : List CString} (h : Seg.PadIn D names g) (hsub : names <+: names') :
    Seg.PadIn D names' g := by
  intro hpad
  obtain ⟨more, rfl⟩ := hsub
  obtain ⟨hsize, o, ho, hfield⟩ := h hpad
  exact ⟨hsize, o, place_append ho more, hfield⟩

/-- The section is tags, one behind the other, and they have grown by `grown` bytes since the static
variable was moved on. -/
structure Lined (D : HwiDefs) (L : Layout) (s : Hwi) (gs : List Seg) (grown : ℕ) : Prop where
  stocked : ∃ names n, 4 ≤ n ∧ Stocked L s.page names (contents gs ++ List.replicate n 0) ∧
    ∀ g ∈ gs, Seg.PadIn D names g
  offset : s.offset + grown = total Seg.size gs
  fits : ∀ g ∈ gs, g.Fits
  last : gs ≠ [] → ∃ c, LastSeg s.last_item c gs ∧ s.last_item + 4 * c = total Seg.size gs

theorem Lined.total_le {grown : ℕ} (h : Lined D L s gs grown) : total Seg.size gs + 4 ≤ 2 ^ 16 := by
  obtain ⟨names, n, hn, hst, -⟩ := h.stocked
  have hlen := hst.length_le
  rw [List.length_append, length_contents, List.length_replicate] at hlen
  omega

/-- Another page, with the same tags. -/
theorem Lined.paged {grown : ℕ} (h : Lined D L s gs grown) {page : Syspage Sect}
    (hst : ∃ names n, 4 ≤ n ∧ Stocked L page names (contents gs ++ List.replicate n 0) ∧
      ∀ g ∈ gs, Seg.PadIn D names g) : Lined D L { s with page := page } gs grown :=
  ⟨hst, h.offset, h.fits, h.last⟩

theorem words_total (h : ∀ g ∈ gs, g.Fits) : 4 ∣ total Seg.size gs := by
  induction gs with
  | nil => exact Nat.dvd_zero 4
  | cons g gs ih =>
      rw [total_cons]
      exact Nat.dvd_add (h g List.mem_cons_self).words
        (ih fun u hu => h u (List.mem_cons_of_mem _ hu))

/-- A tag that was just allocated. -/
def newTag (info : TagInfo) (nm : ℕ) (pad : Bool) : Seg :=
  ⟨[info.size / 4, nm], List.replicate (info.size - 4) 0, pad⟩

theorem newTag_size {info : TagInfo} (hok : info.Ok) (nm : ℕ) (pad : Bool) :
    (newTag info nm pad).size = info.size := by
  have hfour := hok.four_le
  rw [Seg.size, newTag, List.length_replicate]
  change 2 * 2 + (info.size - 4) = info.size
  omega

theorem newTag_owned {info : TagInfo} (hok : info.Ok) (nm off : ℕ) :
    Seg.owned (off, newTag info nm false) =
    some ⟨off, info.size, (newTag info nm false).word 1, none,
    List.replicate (info.size - 4) 0⟩ := by
  rw [Seg.owned, newTag_size hok]
  rfl

/-- **A tag** that is no item is put behind the others. -/
theorem Lined.tag (hL : L.Valid) (hD : D.Valid) (h : Lined D L s gs 0) (hne : gs ≠ [])
    {info : TagInfo} (hok : info.Ok)
    (hres : alloc_aligned L info s = .ok (off, s')) {pad : Bool}
    (hpad : pad = true → info = D.padInfo) :
    off = total Seg.size gs ∧ ∃ gs' nm, List.Forall₂ Seg.Like gs gs' ∧
    Lined D L s' (gs' ++ [newTag info nm pad]) 0 := by
  obtain ⟨names, n, hn, hst, hpads⟩ := h.stocked
  obtain ⟨c, hlast, hcount⟩ := h.last hne
  have htotal := h.total_le
  have hoff : s.offset = (contents gs).length := by rw [length_contents, ← h.offset, Nat.add_zero]
  rcases alloc_aligned_room hL hst hoff hok with
    hover | ⟨page, nm, names', n', h₁, hn', hsub, hplace, hres'⟩
  · rw [hres] at hover
    cases hover
  obtain ⟨rfl, rfl⟩ := Prod.mk.inj (Except.ok.inj (hres.symm.trans hres'))
  obtain ⟨gs', hlike, hlast', h₂⟩ :=
    Stocked.count (s := { s with page := page }) hL h₁ hlast (by omega) (info.size / 4)
  have hfour := hok.four_le
  have hwords := hok.words
  have hoff' : s.offset = (contents gs').length := by
    rw [hoff, length_contents, length_contents, like_total hlike]
  have htwo := h₂.zeros (k := 2) (by omega)
  have hzero := htwo.put hL hoff' (j := 0) (by decide) (info.size / 4)
  have hone := hzero.put hL hoff' (j := 1) (by simp) nm
  have hsize := newTag_size hok nm pad
  refine ⟨by rw [hoff, length_contents], gs', nm, hlike,
    ⟨names', n' - info.size, by omega, ?_, ?_⟩, ?_, ?_, fun _ => ?_⟩
  · have hbytes : contents (gs' ++ [newTag info nm pad]) ++ List.replicate (n' - info.size) 0 =
        contents gs' ++ fields 2 [info.size / 4, nm] ++ List.replicate (n' - 2 * 2) 0 := by
      have hrest : n' - 2 * 2 = info.size - 4 + (n' - info.size) := by omega
      rw [hrest, ← List.replicate_append_replicate]
      simp [contents, Seg.bytes, newTag]
    rw [hbytes]
    exact hone
  · intro g hg
    rcases List.mem_append.mp hg with hg | hg
    · exact (like_pads hlike hpads g hg).grow hsub
    · rw [List.mem_singleton.mp hg]
      intro htrue
      have hinfo : info = D.padInfo := hpad htrue
      refine ⟨by rw [hsize, hinfo]; rfl, nm, ?_, rfl⟩
      rw [hinfo] at hplace
      exact hplace hD.pad.1
  · rw [total_append, like_total hlike, total_cons, total_nil, hsize, ← h.offset]
    rfl
  · intro g hg
    rcases List.mem_append.mp hg with hg | hg
    · exact like_fits hlike h.fits g hg
    · rw [List.mem_singleton.mp hg]
      exact ⟨.inl rfl, by rw [hsize]; rfl, hsize ▸ hwords⟩
  · refine ⟨c + info.size / 4, hlast'.concat rfl, ?_⟩
    rw [total_append, like_total hlike, total_cons, total_nil, hsize]
    change s.last_item + _ = _
    omega

theorem Lined.word {grown j : ℕ} (h : Lined D L s (us ++ u :: vs) grown)
    (hj : j < u.fields.length) :
    s.get (total Seg.size us) j = u.word j := by
  obtain ⟨names, n, -, hst, -⟩ := h.stocked
  exact hst.word hj

theorem Lined.lastWord {grown j : ℕ} (h : Lined D L s (us ++ [u]) grown)
    (hj : j < u.fields.length) :
    s.get (total Seg.size us) j = u.word j := h.word hj

/-! ### The calls -/

theorem Lined.offset_words (h : Lined D L s gs 0) : s.offset ≤ 2 ^ 16 ∧ 4 ∣ s.offset := by
  have htotal := h.total_le
  have hoff : s.offset = total Seg.size gs := h.offset
  rw [hoff]
  exact ⟨by omega, words_total h.fits⟩

/-- **Alignment** puts a pad behind the tags, if anything. -/
theorem Lined.align (hL : L.Valid) (hD : D.Valid) (h : Lined D L s gs 0) {align depth : ℕ}
    (halign : align = 4 ∨ align = 8)
    (hres : align_tag (hwi_alloc_tag D L (depth + 1) D.padInfo) align s = .ok s') :
    ∃ gs', Lined D L s' gs' 0 ∧ owned gs' = owned gs ∧ align ∣ s'.offset ∧
    (gs ≠ [] → gs' ≠ []) := by
  obtain ⟨hoff, hwords⟩ := h.offset_words
  by_cases hdvd : align ∣ s.offset
  · rw [align_tag_of_dvd hoff hwords halign hdvd] at hres
    obtain rfl := Except.ok.inj hres
    exact ⟨gs, h, rfl, hdvd, id⟩
  · have hne : gs ≠ [] := by
      rintro rfl
      have hzero : s.offset = 0 := h.offset
      exact hdvd (hzero ▸ Nat.dvd_zero align)
    rw [align_tag, align_gap hoff hwords halign, if_neg hdvd, if_pos (by decide),
      hwi_alloc_tag_of_dvd hoff hwords hD.padInfo hwords] at hres
    cases halloc : alloc_aligned L D.padInfo s with
    | error e =>
        rw [halloc] at hres
        cases hres
    | ok r =>
        rw [halloc] at hres
        obtain rfl := Except.ok.inj hres
        obtain ⟨-, gs', nm, hlike, hlined⟩ :=
          h.tag hL hD hne hD.padInfo halloc (fun _ => rfl : true = true → _)
        refine ⟨_, hlined, ?_, ?_, fun _ => by simp⟩
        · rw [owned_pad gs' rfl, like_owned hlike]
        · have hend : r.2.offset = s.offset + 4 := by
            have hoff₂ := hlined.offset
            rw [total_append, like_total hlike, total_cons, total_nil, newTag_size hD.padInfo,
              ← h.offset] at hoff₂
            exact hoff₂
          rcases halign with rfl | rfl
          · exact absurd hwords hdvd
          · change 8 ∣ r.2.offset
            omega

/-- **`hwi_alloc_tag`** puts a tag behind the others. -/
theorem Lined.alloc_tag (hL : L.Valid) (hD : D.Valid) (h : Lined D L s gs 0) (hne : gs ≠ [])
    {info : TagInfo}
    (hok : info.Ok) {depth : ℕ} (hres : hwi_alloc_tag D L (depth + 2) info s = .ok (off, s')) :
    ∃ gs', Lined D L s' gs' 0 ∧
      owned gs' = owned gs ++
        [⟨off, info.size, s'.get off 1, none, List.replicate (info.size - 4) 0⟩] ∧ Closed gs' := by
  rw [hwi_alloc_tag] at hres
  obtain ⟨s₁, hres₁, hres₂⟩ := bind_eq_ok.mp hres
  obtain ⟨gs₁, h₁, howned, -, hne₁⟩ := h.align hL hD hok.align hres₁
  obtain ⟨hoff, gs₂, nm, hlike, h₂⟩ :=
    h₁.tag hL hD (hne₁ hne) hok hres₂ (fun hp => absurd hp (by decide) : false = true → _)
  have hplace : off = total Seg.size gs₂ := by rw [hoff, like_total hlike]
  have hname : s'.get off 1 = (newTag info nm false).word 1 := by
    rw [hplace]
    exact h₂.lastWord (show 1 < 2 by decide)
  refine ⟨_, h₂, ?_, closed_concat gs₂ rfl⟩
  rw [hname, owned_append, like_owned hlike, howned, hplace]
  simp [laid, newTag_owned hok]

/-- An item that was just allocated. -/
def newItem (info : TagInfo) (nm itemname owner : ℕ) : Seg :=
  ⟨[info.size / 4, nm, info.size / 4, itemname, owner, 0], List.replicate (info.size - 12) 0, false⟩

theorem newItem_size {info : TagInfo} (hroom : 12 ≤ info.size) (nm itemname owner : ℕ) :
    (newItem info nm itemname owner).size = info.size := by
  rw [Seg.size, newItem, List.length_replicate]
  change 2 * 6 + (info.size - 12) = info.size
  omega

theorem newItem_owned {info : TagInfo} (hroom : 12 ≤ info.size) (nm itemname owner off : ℕ) :
    Seg.owned (off, newItem info nm itemname owner) =
      some ⟨off, info.size, (newItem info nm itemname owner).word 1,
        some ((newItem info nm itemname owner).word 3, (newItem info nm itemname owner).word 4),
        List.replicate (info.size - 12) 0⟩ := by
  rw [Seg.owned, newItem_size hroom]
  rfl

/-- The owner of an item, if it has one, counts a kid more. -/
theorem Stocked.kid (hL : L.Valid) (h : Stocked L s.page names (contents gs ++ m)) {owner : ℕ}
    (howner : owner = D.null_off ∨ ∃ a ∈ owned gs, a.item.isSome ∧ a.off = owner) :
    ∃ gs', List.Forall₂ Seg.Like gs gs' ∧
      Stocked L (if owner ≠ D.null_off then s.put owner 5 (s.get owner 5 + 1) else s).page names
        (contents gs' ++ m) := by
  have hrefl : ∀ gs : List Seg, List.Forall₂ Seg.Like gs gs :=
    fun gs => List.forall₂_same.mpr fun g _ => .refl g
  by_cases hnull : owner = D.null_off
  · rw [if_neg (not_not.mpr hnull)]
    exact ⟨gs, hrefl gs, h⟩
  · obtain ⟨a, ha, hitem, rfl⟩ := howner.resolve_left hnull
    obtain ⟨us, u, vs, rfl, -, rfl⟩ := mem_owned ha
    have hsix : u.fields.length = 6 := by
      by_contra hne
      simp [hne] at hitem
    have hput := h.setWord hL (show 5 < u.fields.length by omega) (s.get (total Seg.size us) 5 + 1)
    rw [if_pos hnull]
    refine ⟨us ++ u.set 5 (s.get (total Seg.size us) 5 + 1) :: vs, ?_, hput⟩
    exact List.rel_append (hrefl us) (.cons (u.like_set (.inr rfl) _) (hrefl vs))

/-- The section with an item behind the others. -/
theorem lined_item {info : TagInfo} (hok : info.Ok) (hroom : 12 ≤ info.size) {nm itemname owner : ℕ}
    (hn : 4 ≤ n) (hfits : ∀ g ∈ gs, g.Fits) (hpads : ∀ g ∈ gs, Seg.PadIn D names g)
    (hst : Stocked L s.page names
      (contents (gs ++ [newItem info nm itemname owner]) ++ List.replicate n 0))
    (hoff : s.offset = total Seg.size gs + info.size) (hlast : s.last_item = total Seg.size gs) :
    Lined D L s (gs ++ [newItem info nm itemname owner]) 0 := by
  have hsize := newItem_size hroom nm itemname owner
  have hwords := hok.words
  refine ⟨⟨names, n, hn, hst, fun g hg => ?_⟩, ?_, fun g hg => ?_, fun _ => ⟨info.size / 4, ?_, ?_⟩⟩
  · rcases List.mem_append.mp hg with hg | hg
    · exact hpads g hg
    · rw [List.mem_singleton.mp hg]
      exact fun hpad => absurd hpad (show ¬ false = true by decide)
  · rw [total_append, total_cons, total_nil, hsize, hoff]
    rfl
  · rcases List.mem_append.mp hg with hg | hg
    · exact hfits g hg
    · rw [List.mem_singleton.mp hg]
      exact ⟨.inr rfl, by rw [hsize]; rfl, hsize ▸ hwords⟩
  · exact ⟨gs, newItem info nm itemname owner, [], rfl, rfl, fun v hv =>
      absurd hv List.not_mem_nil, hlast, rfl⟩
  · rw [total_append, total_cons, total_nil, hsize, hlast]
    omega

/-- **`hwi_alloc_item`** puts an item behind the others. -/
theorem Lined.alloc_item (hL : L.Valid) (hD : D.Valid) (h : Lined D L s gs 0) {info : TagInfo}
    (hok : info.Ok)
    (hroom : 12 ≤ info.size) {itemname : CString} (hname : CString.Short itemname) {owner : ℕ}
    (howner : owner = D.null_off ∨ ∃ a ∈ owned gs, a.item.isSome ∧ a.off = owner) {depth : ℕ}
    (hres : hwi_alloc_item D L (depth + 1) info itemname owner s = .ok (off, s')) :
    ∃ gs', Lined D L s' gs' 0 ∧ owned gs' = owned gs ++
      [⟨off, info.size, s'.get off 1, some (s'.get off 3, s'.get off 4),
      List.replicate (info.size - 12) 0⟩] ∧
      Closed gs' := by
  obtain ⟨names, n, hn, hst, hpads⟩ := h.stocked
  rw [hwi_alloc_item] at hres
  obtain ⟨⟨saved_in, page₁⟩, hstr, hres⟩ := bind_eq_ok.mp hres
  obtain ⟨s₂, halign, hres⟩ := bind_eq_ok.mp hres
  obtain ⟨⟨tag, s₃⟩, halloc, hres⟩ := bind_eq_ok.mp hres
  -- the name of the item is added, and the offset is aligned
  have h₁ : Lined D L { s with page := page₁ } gs 0 := by
    rcases hst.string hL hname with hover | ⟨saved, page, names₁, hstr', hst₁, hsub, -⟩
    · rw [hstr] at hover
      cases hover
    · obtain ⟨rfl, rfl⟩ := Prod.mk.inj (Except.ok.inj (hstr.symm.trans hstr'))
      exact h.paged ⟨names₁, n, hn, hst₁, fun g hg => (hpads g hg).grow hsub⟩
  obtain ⟨gs₂, h₂, howned, hdvd, -⟩ := h₁.align hL hD hok.align halign
  obtain ⟨names₂, n₂, hn₂, hst₂, hpads₂⟩ := h₂.stocked
  obtain ⟨hoff, hwords⟩ := h₂.offset_words
  have hplace : s₂.offset = (contents gs₂).length := by
    rw [length_contents, ← h₂.offset, Nat.add_zero]
  dsimp only at halloc hres
  rw [hwi_alloc_tag_of_dvd (s := { s₂ with last_item := s₂.offset }) hoff hwords hok hdvd] at halloc
  rcases alloc_aligned_room hL (s := { s₂ with last_item := s₂.offset }) hst₂ hplace hok with
    hover | ⟨page₃, nm, names₃, n₃, hst₃, hn₃, hsub₃, -, hroom₃⟩
  · rw [halloc] at hover
    cases hover
  obtain ⟨rfl, rfl⟩ := Prod.mk.inj (Except.ok.inj (halloc.symm.trans hroom₃))
  -- the fields are written, and the owner has a kid more
  have hitem := Stocked.item hL (s := ⟨page₃, s₂.offset, s₂.offset⟩) hst₃ (by omega) hplace rfl info
    nm saved_in owner
  have hbytes : fields 2 [info.size / 4, nm, info.size / 4, saved_in, owner, 0] ++
      List.replicate (n₃ - 12) 0 =
      contents [newItem info nm saved_in owner] ++ List.replicate (n₃ - info.size) 0 := by
    have hrest : n₃ - 12 = info.size - 12 + (n₃ - info.size) := by omega
    rw [hrest, ← List.replicate_append_replicate]
    simp [contents, Seg.bytes, newItem]
  rw [List.append_assoc, hbytes] at hitem
  rw [← howned] at howner
  obtain ⟨gs₃, hlike, hkid⟩ := hitem.kid hL howner
  rw [← List.append_assoc, ← contents_append] at hkid
  have htotal : s₂.offset = total Seg.size gs₃ := by rw [hplace, length_contents, like_total hlike]
  obtain ⟨rfl, hs'⟩ := Prod.mk.inj (Except.ok.inj hres)
  have hend : s'.offset = s₂.offset + info.size ∧ s'.last_item = s₂.offset := by
    rw [← hs']
    split
    · exact ⟨rfl, rfl⟩
    · exact ⟨rfl, rfl⟩
  have hlined : Lined D L s' (gs₃ ++ [newItem info nm saved_in owner]) 0 := by
    refine lined_item hok hroom (by omega) (like_fits hlike h₂.fits)
      (fun g hg => (like_pads hlike hpads₂ g hg).grow hsub₃) (n := n₃ - info.size) ?_
        (by rw [hend.1, htotal]) (by rw [hend.2, htotal])
    rw [← hs']
    exact hkid
  refine ⟨_, hlined, ?_, closed_concat gs₃ rfl⟩
  have hword : ∀ j < 6, s'.get s₂.offset j = (newItem info nm saved_in owner).word j := by
    intro j hj
    rw [htotal]
    exact hlined.lastWord hj
  change owned _ = owned gs ++
    [⟨s₂.offset, _, s'.get s₂.offset 1, some (s'.get s₂.offset 3, s'.get s₂.offset 4), _⟩]
  rw [hword 1 (by decide), hword 3 (by decide), hword 4 (by decide), owned_append, like_owned hlike,
    howned, htotal]
  simp [laid, newItem_owned hroom]

/-! ### A tag that grows -/

/-- A tag that was asked for, with the tags in front of it and behind it. -/
theorem owned_split {front back : List Owned} {a : Owned} (h : owned gs = front ++ a :: back) :
    ∃ us u vs, gs = us ++ u :: vs ∧ owned us = front ∧ Seg.owned (total Seg.size us, u) = some a ∧
      (laid Seg.size (total Seg.size us + u.size) vs).filterMap Seg.owned = back := by
  obtain ⟨xs, rest, hxs, -, hrest⟩ := List.filterMap_eq_append_iff.mp h
  obtain ⟨ys, x, zs, rfl, -, hx, hback⟩ := List.filterMap_eq_cons_iff.mp hrest
  rw [← List.append_assoc] at hxs
  obtain ⟨us, vs, rfl, hoff, rfl⟩ := laid_split hxs
  rw [Nat.zero_add] at hoff
  have hhead : Seg.owned (total Seg.size us, x.2) = some a := by rw [← hoff]; exact hx
  rw [hoff] at hback
  refine ⟨us, x.2, vs, rfl, ?_, hhead, hback⟩
  rw [owned_append, laid, List.filterMap_cons_some hhead, hback] at h
  exact List.append_cancel_right h

/-- What is last for the caller is last in the section. -/
theorem owned_last {front : List Owned} {a : Owned} (h : owned gs = front ++ [a])
    (hclosed : Closed gs) : ∃ us u,
    gs = us ++ [u] ∧ owned us = front ∧ Seg.owned (total Seg.size us, u) = some a := by
  obtain ⟨us, u, vs, rfl, hfront, hu, hback⟩ := owned_split h
  rcases List.eq_nil_or_concat vs with rfl | ⟨vs, v, rfl⟩
  · exact ⟨us, u, rfl, hfront, hu⟩
  · have hpad : v.pad = false := hclosed (us ++ u :: vs) v (by simp)
    rw [List.concat_eq_append, laid_concat, List.filterMap_append] at hback
    simp [Seg.owned, hpad] at hback

/-- The section is grown. -/
theorem Stocked.grow (hL : L.Valid) {page page' : Syspage Sect} {l : List UInt8}
    (h : Stocked L page names l) {add : ℕ}
    (hadd : add ≤ 2 ^ 31 - 8) (hres : grow_syspage_section L (some .hwinfo) add page = .ok page') :
    Stocked L page' names (l ++ List.replicate ((add + 7) / 8 * 8) 0) := by
  obtain ⟨hlim, -, hother, hself⟩ := h.limited.grown hL hadd hres
  obtain ⟨hmax, htotal⟩ := h.limited.grow_sizes hL hadd hres
  obtain ⟨n, ht⟩ := h.table
  have hlimit := h.max
  have hfits := h.fits
  exact ⟨hlim, hmax ▸ hlimit, by omega, ⟨n, hother _ _ (by decide) ht.bytes, ht.pos, ht.nonempty⟩,
    hself _ _ rfl h.bytes⟩

/-- A tag that has grown. -/
def Seg.grown (g : Seg) (size : ℕ) : Seg :=
  { g with fields := g.fields.set 0 ((g.size + size) / 4), body := g.body ++ List.replicate size 0 }

theorem Seg.grown_size (g : Seg) (size : ℕ) : (g.grown size).size = g.size + size := by
  rw [Seg.size, Seg.size, Seg.grown, List.length_set, List.length_append, List.length_replicate,
    Nat.add_assoc]

theorem Seg.grown_word (g : Seg) (size : ℕ) {j : ℕ} (hj : j ≠ 0) :
    (g.grown size).fields[j]? = g.fields[j]? :=
  List.getElem?_set_ne hj.symm

theorem Seg.grown_owned {a : Owned} (h : Seg.owned (off, g) = some a) (size : ℕ) :
    Seg.owned (off, g.grown size) =
    some { a with size := a.size + size, body := a.body ++ List.replicate size 0 } := by
  have hword : ∀ j, j ≠ 0 → (g.grown size).word j = g.word j := by
    intro j hj
    rw [Seg.word, Seg.word, List.getD_eq_getElem?_getD, List.getD_eq_getElem?_getD,
      g.grown_word size hj]
  have hlen : (g.grown size).fields.length = g.fields.length := List.length_set
  obtain ⟨hpad, rfl⟩ := owned_eq_some h
  have hpad' : (g.grown size).pad = false := hpad
  rw [Seg.owned, hpad', g.grown_size, hword 1 (by decide), hword 3 (by decide),
    hword 4 (by decide), hlen]
  rfl

/-- **`hwi_grow_tag`** on the last tag: it is longer, and so is the last item. -/
theorem Lined.grow {grown : ℕ} (hL : L.Valid) (h : Lined D L s (gs ++ [g]) grown)
    (hpad : g.pad = false) {size : ℕ}
    (hwords : 4 ∣ size) (hsize : size ≤ 2 ^ 31 - 8)
    (hres : hwi_grow_tag L (total Seg.size gs) size s = .ok (off, s')) :
    ∃ fs f, Lined D L s' (fs ++ [f.grown size]) (grown + size) ∧ List.Forall₂ Seg.Like gs fs ∧
    Seg.Like g f := by
  obtain ⟨names, n, hn, hst, hpads⟩ := h.stocked
  obtain ⟨c, hlast, hcount⟩ := h.last (by simp)
  have htotal := h.total_le
  have hfits := h.fits g (by simp)
  obtain ⟨page, hgrow, hres⟩ := bind_eq_ok.mp hres
  obtain ⟨rfl, rfl⟩ := Prod.mk.inj (Except.ok.inj hres)
  have h₁ := hst.grow hL hsize hgrow
  rw [List.append_assoc, List.replicate_append_replicate] at h₁
  obtain ⟨gs', hlike, hlast', h₂⟩ :=
    Stocked.count (s := { s with page := page }) hL h₁ hlast (by omega) (size / 4)
  obtain ⟨fs, f, _, rfl, hfs, hf, hnil⟩ := forall₂_split hlike
  cases hnil
  set t : Hwi := { s with page := page }.put s.last_item 2
    (Hwi.get { s with page := page } s.last_item 2 + size / 4)
  have hzero : 0 < f.fields.length := by
    have hkind := (hf.fits hfits).kind
    omega
  rw [total_append, total_cons, total_nil] at htotal
  have hfour := hfits.words
  have hget : t.get (total Seg.size fs) 0 = g.size / 4 := by
    rw [h₂.word hzero, hf.word (by decide) (by decide), Seg.word, List.getD_eq_getElem?_getD,
      hfits.first]
    exact Nat.mod_eq_of_lt (show g.size / 4 < 2 ^ 16 by omega)
  have hput := h₂.setWord hL hzero ((f.size + size) / 4)
  have hvalue : t.get (total Seg.size fs) 0 + size / 4 = (f.size + size) / 4 := by
    rw [hget, hf.size]
    omega
  rw [← hvalue] at hput
  have hbytes : contents (fs ++ [f.set 0 ((f.size + size) / 4)]) ++
      List.replicate (n + (size + 7) / 8 * 8) 0 =
      contents (fs ++ [f.grown size]) ++ List.replicate (n + (size + 7) / 8 * 8 - size) 0 := by
    have hrest : n + (size + 7) / 8 * 8 = size + (n + (size + 7) / 8 * 8 - size) := by omega
    conv_lhs => rw [hrest, ← List.replicate_append_replicate]
    simp [contents, Seg.bytes, Seg.set, Seg.grown]
  have hend : total Seg.size (fs ++ [f.grown size]) = total Seg.size (gs ++ [g]) + size := by
    rw [total_append, total_append, like_total hfs, total_cons, total_cons, total_nil, f.grown_size,
      hf.size]
    omega
  refine ⟨fs, f, ⟨⟨names, n + (size + 7) / 8 * 8 - size, by omega, ?_, fun u hu => ?_⟩, ?_,
    fun u hu => ?_, fun _ => ?_⟩, hfs, hf⟩
  · rw [← hbytes, ← hvalue]
    rw [like_total hfs] at hput ⊢
    exact hput
  · rcases List.mem_append.mp hu with hu | hu
    · exact like_pads hlike hpads u (List.mem_append_left _ hu)
    · rw [List.mem_singleton.mp hu]
      intro htrue
      have hfalse : f.pad = false := hf.pad.trans hpad
      exact absurd (hfalse.symm.trans htrue) (by decide)
  · rw [hend, ← h.offset, Nat.add_assoc]
    rfl
  · rcases List.mem_append.mp hu with hu | hu
    · exact like_fits hlike h.fits u (List.mem_append_left _ hu)
    · rw [List.mem_singleton.mp hu]
      have hkind := (hf.fits hfits).kind
      refine ⟨by rw [Seg.grown, List.length_set]; exact hkind, ?_, ?_⟩
      · rw [f.grown_size]
        exact List.getElem?_set_self hzero
      · rw [f.grown_size, hf.size]
        exact Nat.dvd_add hfour hwords
  · refine ⟨c + size / 4, hlast'.replace List.length_set (f.grown_word size (by decide)), ?_⟩
    rw [hend]
    change s.last_item + _ = _
    omega

/-! ### A caller stores in its tag -/

/-- Bytes put over others, from the `i`-th on. -/
def refilled (l : List UInt8) (i : ℕ) (bs : List UInt8) : List UInt8 :=
  l.take i ++ bs ++ l.drop (i + bs.length)

/-- A store behind the fields of a tag. -/
def Owned.fill (a : Owned) (i : ℕ) (bs : List UInt8) (s : Hwi) : Hwi :=
  { s with page := s.page.written (s.page.p (some .hwinfo) + a.start + i) bs }

theorem Stocked.write (hL : L.Valid) {page : Syspage Sect} {l m m' k : List UInt8}
    (h : Stocked L page names (l ++ m ++ k)) (hm : m.length = m'.length) :
    Stocked L (page.written (page.p (some .hwinfo) + l.length) m') names (l ++ m' ++ k) := by
  obtain ⟨hlim, hb, hother⟩ := h.limited.write hL h.bytes hm
  obtain ⟨htotal, hmax⟩ :=
    h.limited.written_sizes hL (Nat.le_add_right (page.p (some .hwinfo)) l.length) m'
  obtain ⟨n, ht⟩ := h.table
  exact ⟨hlim, hmax ▸ h.max, htotal ▸ h.fits,
    ⟨n, hother _ _ (by decide) ht.bytes, ht.pos, ht.nonempty⟩, hb⟩

/-- Another body of the same length. -/
def Seg.Same (g g' : Seg) : Prop := g'.fields = g.fields ∧ g'.size = g.size ∧ g'.pad = g.pad

theorem same_total (h : List.Forall₂ Seg.Same gs gs') : total Seg.size gs' = total Seg.size gs := by
  induction h with
  | nil => rfl
  | cons hg _ ih => rw [total_cons, total_cons, hg.2.1, ih]

/-- What holds of the fields, the size and the kind of every tag holds with other bodies. -/
theorem same_forall {P : List ℕ → ℕ → Bool → Prop} (h : List.Forall₂ Seg.Same gs gs')
    (hall : ∀ g ∈ gs, P g.fields g.size g.pad) : ∀ g ∈ gs', P g.fields g.size g.pad := by
  induction h with
  | nil => exact hall
  | cons hg _ ih =>
      rw [List.forall_mem_cons] at hall ⊢
      refine ⟨?_, ih hall.2⟩
      rw [hg.1, hg.2.1, hg.2.2]
      exact hall.1

theorem LastSeg.same {last : ℕ} (h : LastSeg last c gs) (hsame : List.Forall₂ Seg.Same gs gs') :
    LastSeg last c gs' := by
  obtain ⟨us, u, vs, rfl, hu, hvs, rfl, hc⟩ := h
  obtain ⟨us', u', vs', rfl, hus', hu', hvs'⟩ := forall₂_split hsame
  refine ⟨us', u', vs', rfl, hu'.1 ▸ hu, ?_, (same_total hus').symm, hu'.1 ▸ hc⟩
  exact same_forall (P := fun fields _ _ => fields.length = 2) hvs' hvs

/-- The tag with its body changed. -/
def Seg.filled (g : Seg) (i : ℕ) (bs : List UInt8) : Seg := { g with body := refilled g.body i bs }

theorem length_refilled {l bs : List UInt8} {i : ℕ} (h : i + bs.length ≤ l.length) :
    (refilled l i bs).length = l.length := by
  rw [refilled, List.length_append, List.length_append, List.length_take, List.length_drop]
  omega

theorem Seg.filled_size {i : ℕ} {bs : List UInt8} (h : i + bs.length ≤ g.body.length) :
    (g.filled i bs).size = g.size := by
  rw [Seg.size, Seg.size, Seg.filled, length_refilled h]

theorem owned_start {a : Owned} (h : Seg.owned (off, g) = some a)
    (hkind : g.fields.length = 2 ∨ g.fields.length = 6) :
    a.start = off + 2 * g.fields.length ∧ a.body = g.body := by
  obtain ⟨-, rfl⟩ := owned_eq_some h
  rw [Owned.start]
  rcases hkind with hkind | hkind
  · simp [hkind]
  · simp [hkind]

/-- **A store** of a caller changes the body of its tag, and nothing else. -/
theorem Lined.fill {grown i : ℕ} (hL : L.Valid) {a : Owned} {bs : List UInt8}
    (h : Lined D L s (us ++ u :: vs) grown)
    (ha : Seg.owned (total Seg.size us, u) = some a) (hi : i + bs.length ≤ a.body.length) :
    Lined D L (a.fill i bs s) (us ++ u.filled i bs :: vs) grown := by
  obtain ⟨names, n, hn, hst, hpads⟩ := h.stocked
  have hfits := h.fits u (by simp)
  obtain ⟨hstart, hbody⟩ := owned_start ha hfits.kind
  rw [hbody] at hi
  have hsize := Seg.filled_size hi
  have hsplit : u.body = u.body.take i ++ (u.body.drop i).take bs.length ++
      u.body.drop (i + bs.length) := by
    rw [← List.drop_drop, List.append_assoc, List.take_append_drop, List.take_append_drop]
  have hfront : (contents us ++ fields 2 u.fields ++ u.body.take i).length =
      total Seg.size us + 2 * u.fields.length + i := by
    rw [List.length_append, List.length_append, length_contents, length_fields, List.length_take,
      Nat.min_eq_left (by omega)]
  have hst' : Stocked L s.page names (contents us ++ fields 2 u.fields ++ u.body.take i ++
      (u.body.drop i).take bs.length ++
        (u.body.drop (i + bs.length) ++ contents vs ++ List.replicate n 0)) := by
    rw [contents_split, hsplit] at hst
    simpa only [List.append_assoc] using hst
  have hlen : ((u.body.drop i).take bs.length).length = bs.length := by
    rw [List.length_take, List.length_drop]
    omega
  have hwritten := hst'.write hL hlen
  have hbytes : contents (us ++ u.filled i bs :: vs) ++ List.replicate n 0 =
      contents us ++ fields 2 u.fields ++ u.body.take i ++ bs ++
        (u.body.drop (i + bs.length) ++ contents vs ++ List.replicate n 0) := by
    rw [contents_split]
    simp only [Seg.filled, refilled, List.append_assoc]
  have hrefl : ∀ gs : List Seg, List.Forall₂ Seg.Same gs gs :=
    fun gs => List.forall₂_same.mpr fun _ _ => ⟨rfl, rfl, rfl⟩
  have hsame : List.Forall₂ Seg.Same (us ++ u :: vs) (us ++ u.filled i bs :: vs) :=
    List.rel_append (hrefl us) (.cons ⟨rfl, hsize, rfl⟩ (hrefl vs))
  refine ⟨⟨names, n, hn, ?_, ?_⟩, ?_, fun g hg => ?_, fun _ => ?_⟩
  · rw [hbytes]
    rw [hfront, ← hstart, ← Nat.add_assoc] at hwritten
    exact hwritten
  · exact same_forall (P := fun fields size pad => pad = true → size = 4 ∧
      ∃ o, place names D.pad = some o ∧
      fields[1]? = some o) hsame hpads
  · rw [same_total hsame]
    exact h.offset
  · obtain ⟨hkind, hfirst, hwords⟩ :=
      same_forall (P := fun fields size _ => (fields.length = 2 ∨ fields.length = 6) ∧
      fields[0]? = some (size / 4) ∧ 4 ∣ size) hsame
          (fun g hg => ⟨(h.fits g hg).kind, (h.fits g hg).first,
        (h.fits g hg).words⟩) g hg
    exact ⟨hkind, hfirst, hwords⟩
  · obtain ⟨c, hlast, hcount⟩ := h.last (by simp)
    exact ⟨c, hlast.same hsame, by rw [same_total hsame]; exact hcount⟩

end Startup
