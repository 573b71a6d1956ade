import RpiBsp.Startup.Syspage.Strings
import RpiBsp.Support.Fields
import RpiBsp.Support.Layout

/-!
# Startup — Syspage — hwinfo

`hwi_alloc.c`: the tags of the hwinfo section, one behind the other, each with its size in words and
the offset of its name.  An item is a tag with four numbers more: how long it is with the tags
behind it, its own name, its owner, and how many items have it as their owner.

The structures of `hw/sysinfo.h` are not part of the source: a field has 16 bits, `struct
hwi_prefix` two fields and `struct hwi_item` six, and a pad is a prefix.  `align_tag` and
`hwi_alloc_tag` call each other; `depth` is how far.

* `image` — the bytes of a list of tags: the sizes of items and the numbers of their kids are worked
out from the list.
* `Kept` — the section is the image of a list of tags, and the static variables stand at its end and
its last item.
* `hwi_alloc_tag_spec`, `hwi_alloc_item_spec` — one call puts a tag behind the others, with a pad
  in front of it if it has to be aligned.
-/

namespace Startup

open Support

/-! ### The code -/

/-- What `hw/sysinfo.h` defines. -/
structure HwiDefs where
  /-- `HWI_NULL_OFF`. -/
  null_off : ℕ
  /-- `HWI_TAG_NAME_pad`. -/
  pad : CString

/-- `HWI_NULL_OFF` is no offset of a tag, and pads have a name. -/
structure HwiDefs.Valid (D : HwiDefs) : Prop where
  null_off : ¬ 4 ∣ D.null_off
  pad : CString.Proper D.pad

/-- What `HWI_TAG_INFO` gives. -/
structure TagInfo where
  name : CString
  size : ℕ
  align : ℕ
deriving DecidableEq

/-- `HWI_TAG_INFO(pad)`. -/
def HwiDefs.padInfo (D : HwiDefs) : TagInfo := ⟨D.pad, 4, 4⟩

/-- The page, and the static variables of `hwi_alloc.c`. -/
structure Hwi where
  page : Syspage Sect
  offset : ℕ
  last_item : ℕ

namespace Hwi

/-- The fields of a tag: its size and name, and of an item its size with the tags behind it, its
name, its owner and the number of its kids. -/
def get (s : Hwi) (off j : ℕ) : ℕ := load 2 (s.page.p (some .hwinfo) + off + 2 * j) s.page.mem

def put (off j v : ℕ) (s : Hwi) : Hwi :=
  { s with page.mem := store 2 (s.page.p (some .hwinfo) + off + 2 * j) v s.page.mem }

end Hwi

/-- `align_tag`, by what allocates a pad. -/
def align_tag (hwi_alloc_pad : Hwi → Except Crash (ℕ × Hwi)) (align : ℕ) (s : Hwi) :
    Except Crash Hwi :=
  if subW 32 (round 64 s.offset align % 2 ^ 32) s.offset ≠ 0 then (hwi_alloc_pad s).map (·.2)
  else .ok s

/-- `hwi_alloc_tag` once the offset is aligned; the pointer to the tag as an offset. -/
def alloc_aligned (L : Layout) (t : TagInfo) (s : Hwi) : Except Crash (ℕ × Hwi) := do
  let (name_off, page) ← add_string L t.name s.page
  let need := addW 32 t.size 4
  let spare := subW 32 (page.size (some .hwinfo)) s.offset
  let page ← (if spare < need then
      grow_syspage_section L (some .hwinfo) (round 64 (subW 32 need spare) 128 % 2 ^ 32) page
    else .ok page)
  let s := { s with page := page }
  let s := s.put s.last_item 2 (s.get s.last_item 2 + t.size / 4)
  let s := s.put s.offset 0 (t.size / 4)
  let s := s.put s.offset 1 name_off
  return (s.offset, { s with offset := addW 32 s.offset t.size })

/-- `hwi_alloc_tag`. -/
def hwi_alloc_tag (D : HwiDefs) (L : Layout) : ℕ → TagInfo → Hwi → Except Crash (ℕ × Hwi)
  | 0, _, _ => .error .outside
  | depth + 1, t, s => do
      let s ← align_tag (hwi_alloc_tag D L depth D.padInfo) t.align s
      alloc_aligned L t s

/-- `hwi_alloc_item`. -/
def hwi_alloc_item (D : HwiDefs) (L : Layout) (depth : ℕ) (t : TagInfo) (itemname : CString)
    (owner : ℕ) (s : Hwi) :
    Except Crash (ℕ × Hwi) := do
  let (saved_in, page) ← add_string L itemname s.page
  let s ← align_tag (hwi_alloc_tag D L depth D.padInfo) t.align { s with page := page }
  let s := { s with last_item := s.offset }
  let (tag, s) ← hwi_alloc_tag D L depth t s
  let s := s.put tag 3 saved_in
  let s := s.put tag 4 owner
  let s := if owner ≠ D.null_off then s.put owner 5 (s.get owner 5 + 1) else s
  return (tag, s)

/-! ### The tags -/

/-- What makes a tag an item: the offset of its name, and its owner. -/
structure ItemPart where
  name : CString
  itemname : ℕ
  owner : ℕ

/-- A tag, the offset of its name, and whether it only aligns the next one. -/
structure Tag where
  info : TagInfo
  name : ℕ
  item : Option ItemPart
  pad : Bool

namespace Tag

def size (t : Tag) : ℕ := t.info.size

/-- The fields of a tag; `span` is its size with the tags behind it. -/
def fields (t : Tag) (span kids : ℕ) : List ℕ :=
  t.size / 4 :: t.name ::
    match t.item with
    | none => []
    | some i => [span / 4, i.itemname, i.owner, kids]

/-- The bytes of a tag; what its caller stores behind the fields is left out. -/
def bytes (t : Tag) (span kids : ℕ) : List UInt8 :=
  Support.fields 2 (t.fields span kids) ++
    List.replicate (t.size - 2 * (t.fields span kids).length) 0

/-- A tag is made of words, and has room for its fields. -/
structure Fits (t : Tag) : Prop where
  words : 4 ∣ t.size
  four_le : 4 ≤ t.size
  twelve_le : t.item.isSome → 12 ≤ t.size

theorem Fits.length_bytes {t : Tag} (h : t.Fits) (span kids : ℕ) :
    (t.bytes span kids).length = t.size := by
  have hprefix := h.four_le
  have hitem := h.twelve_le
  unfold bytes fields
  rw [List.length_append, length_fields, List.length_replicate]
  cases hi : t.item with
  | none =>
      simp only [List.length_cons, List.length_nil]
      omega
  | some i =>
      rw [hi] at hitem
      have hroom : 12 ≤ t.size := hitem rfl
      simp only [List.length_cons, List.length_nil]
      omega

theorem bytes_of_tag {t : Tag} (h : t.item = none) (span kids span' kids' : ℕ) :
    t.bytes span kids = t.bytes span' kids' := by
  unfold bytes fields
  rw [h]

end Tag

/-- The size of tags. -/
def extent (ts : List Tag) : ℕ := total Tag.size ts

@[simp] theorem extent_nil : extent [] = 0 := rfl

@[simp] theorem extent_cons (t : Tag) (ts : List Tag) : extent (t :: ts) = t.size + extent ts := rfl

@[simp] theorem extent_append (ts us : List Tag) : extent (ts ++ us) = extent ts + extent us :=
  total_append Tag.size ts us

/-- The size of the tags up to the next item. -/
def belongs : List Tag → ℕ
  | [] => 0
  | t :: ts => if t.item.isSome then 0 else t.size + belongs ts

theorem belongs_le (ts : List Tag) : belongs ts ≤ extent ts := by
  induction ts with
  | nil => exact Nat.le_refl 0
  | cons t ts ih =>
      rw [belongs, extent_cons]
      split
      · exact Nat.zero_le _
      · exact Nat.add_le_add_left ih _

/-- Tags that are not items belong to the item in front of them. -/
theorem belongs_tags {ts : List Tag} (h : ∀ t ∈ ts, t.item = none) : belongs ts = extent ts := by
  induction ts with
  | nil => rfl
  | cons t ts ih =>
      have hhead : ¬ t.item.isSome := by simp [h t List.mem_cons_self]
      rw [belongs, if_neg hhead, ih fun u hu => h u (List.mem_cons_of_mem _ hu), extent_cons]

theorem belongs_append_item {t : Tag} (h : t.item.isSome) (ts us : List Tag) :
    belongs (ts ++ t :: us) = belongs ts := by
  induction ts with
  | nil => exact if_pos h
  | cons u ts ih =>
      rw [List.cons_append, belongs, belongs, ih]

/-- The bytes of tags that begin at `off`. -/
def image (kids : ℕ → ℕ) : ℕ → List Tag → List UInt8
  | _, [] => []
  | off, t :: ts => t.bytes (t.size + belongs ts) (kids off) ++ image kids (off + t.size) ts

variable {kids kids' : ℕ → ℕ} {off : ℕ} {ts us : List Tag} {t : Tag}

theorem length_image (h : ∀ t ∈ ts, t.Fits) : (image kids off ts).length = extent ts := by
  induction ts generalizing off with
  | nil => rfl
  | cons t ts ih =>
      rw [image, List.length_append, (h t List.mem_cons_self).length_bytes,
        ih fun u hu => h u (List.mem_cons_of_mem _ hu), extent_cons]

/-- Only the kids at offsets of tags matter. -/
theorem image_congr (hoff : 4 ∣ off)
    (h : ∀ x, 4 ∣ x → off ≤ x → x < off + extent ts → kids x = kids' x)
    (hfit : ∀ t ∈ ts, t.Fits) : image kids off ts = image kids' off ts := by
  induction ts generalizing off with
  | nil => rfl
  | cons t ts ih =>
      obtain ⟨hwords, hpos, -⟩ := hfit t List.mem_cons_self
      rw [extent_cons] at h
      have hnext : 4 ∣ off + t.size := Nat.dvd_add hoff hwords
      rw [image, image, h off hoff (Nat.le_refl _) (by omega),
        ih hnext (fun x hx hle hlt => h x hx (by omega) (by omega)) fun u hu =>
          hfit u (List.mem_cons_of_mem _ hu)]

/-- An item is where the size of the one in front of it ends. -/
theorem image_append_item (h : t.item.isSome) :
    image kids off (ts ++ t :: us) = image kids off ts ++ image kids (off + extent ts)
    (t :: us) := by
  induction ts generalizing off with
  | nil => rfl
  | cons u ts ih =>
      have htail := @ih (off + u.size)
      rw [Nat.add_assoc, ← extent_cons] at htail
      calc image kids off (u :: (ts ++ t :: us))
          = u.bytes (u.size + belongs (ts ++ t :: us)) (kids off) ++ image kids (off + u.size)
            (ts ++ t :: us) := rfl
        _ = image kids off (u :: ts) ++ image kids (off + extent (u :: ts)) (t :: us) := by
          rw [belongs_append_item h, htail, ← List.append_assoc]
          rfl

/-- A tag that is no item, behind others that are none. -/
theorem image_append_tag (h : ∀ u ∈ ts, u.item = none) (ht : t.item = none) :
    image kids off (ts ++ [t]) = image kids off ts ++ t.bytes 0 0 := by
  induction ts generalizing off with
  | nil =>
      have htag : t.bytes (t.size + belongs []) (kids off) = t.bytes 0 0 :=
        Tag.bytes_of_tag ht _ _ _ _
      simp only [List.nil_append, image, List.append_nil, htag]
  | cons u ts ih =>
      have hu : u.bytes (u.size + belongs (ts ++ [t])) (kids off) = u.bytes (u.size + belongs ts)
          (kids off) :=
        Tag.bytes_of_tag (h u List.mem_cons_self) _ _ _ _
      rw [List.cons_append, image, hu, ih fun v hv =>
        h v (List.mem_cons_of_mem _ hv), image, List.append_assoc]

theorem image_cons : image kids off (t :: ts) =
    fields 2 (t.fields (t.size + belongs ts) (kids off)) ++
      (List.replicate (t.size - 2 * (t.fields (t.size + belongs ts) (kids off)).length) 0 ++
        image kids (off + t.size) ts) := by
  rw [image, Tag.bytes, List.append_assoc]

/-! ### The section -/

/-- The page is small and has a table of names, and the hwinfo section holds `l`. -/
structure Stocked (L : Layout) (page : Syspage Sect) (names : List CString)
    (l : List UInt8) : Prop where
  limited : Limited L page
  max : page.max_size L ≤ 2 ^ 16
  fits : page.total_size L ≤ 2 ^ 16
  table : ∃ n, Table page names n
  bytes : HasBytes page .hwinfo l

namespace Stocked

variable {L : Layout} {page page' : Syspage Sect} {names : List CString} {l : List UInt8}

theorem size_le (h : Stocked L page names l) (k : Sect) : page.size (some k) ≤ 2 ^ 16 := by
  have hb := h.limited.packed.below (some k)
  have ha := h.limited.packed.base_le (some k)
  have hf := h.fits
  omega

theorem length_le (h : Stocked L page names l) : l.length ≤ 2 ^ 16 :=
  h.bytes.size ▸ h.size_le .hwinfo

/-- Names stand at offsets that a field has room for. -/
theorem place_lt (h : Stocked L page names l) {name : CString} {o : ℕ}
    (ho : place names name = some o) :
    o < 2 ^ 16 := by
  obtain ⟨n, ht⟩ := h.table
  have hlen := (ht.denotes ho).1
  have hsize := h.size_le .strings
  omega

/-- Another call on the page. -/
theorem pageStep (hL : L.Valid) (h : Stocked L page names l) (hstep : PageStep L page page')
    (hmax : page'.max_size L ≤ 2 ^ 16) : ∃ n, Stocked L page' names (l ++ List.replicate n 0) := by
  obtain ⟨hlim, hbytes⟩ := hstep.limited hL h.limited
  obtain ⟨n, hn⟩ := hbytes _ _ h.bytes
  obtain ⟨m, ht⟩ := h.table
  have htotal := hstep.total_le hL h.limited
  have hfits := h.fits
  have hlimit := h.max
  exact ⟨n, hlim, hmax, by omega, ht.grows (hbytes .strings), hn⟩

/-- A name is added. -/
theorem string (hL : L.Valid) (h : Stocked L page names l) {name : CString}
    (hname : CString.Short name) :
    add_string L name page = .error .syspage_overflow ∨ ∃ off page' names',
      add_string L name page = .ok (off, page') ∧ Stocked L page' names' l ∧ names <+: names' ∧
      (name.chars ≠ [] → place names' name = some off) := by
  obtain ⟨m, ht⟩ := h.table
  rcases add_string_spec hL ht h.limited hname with
    hover | ⟨off, page', names', n', hok, hlim, ht', hsub, hplace, hother⟩
  · exact .inl hover
  · obtain ⟨hmax, htotal⟩ := add_string_sizes hL ht h.limited hname hok
    have hfits := h.fits
    have hlimit := h.max
    exact .inr ⟨off, page', names', hok,
      ⟨hlim, hmax ▸ hlimit, by omega, ⟨n', ht'⟩, hother _ _ (by decide) h.bytes⟩,
      hsub, hplace⟩

/-- The section is grown unless there is room for a tag and the prefix behind it. -/
theorem room (hL : L.Valid) {n need : ℕ} (h : Stocked L page names (l ++ List.replicate n 0))
    (hneed : need ≤ 2 ^ 31 - 254) :
    let grown := if n < need then
        grow_syspage_section L (some .hwinfo) (round 64 (subW 32 need n) 128 % 2 ^ 32) page
      else .ok page
    grown = .error .syspage_overflow ∨ ∃ page' n', grown = .ok page' ∧
      Stocked L page' names (l ++ List.replicate n' 0) ∧ need ≤ n' := by
  intro grown
  rcases h.limited.room hL h.bytes (chunks_enough hneed) with
    hover | ⟨page', n', hok, hlim, hbytes, hn', -, -, hother⟩
  · exact .inl hover
  · refine .inr ⟨page', n', hok, ?_, hn'⟩
    obtain ⟨m, ht⟩ := h.table
    have hsizes : page'.max_size L = page.max_size L ∧
        (page'.total_size L = page.total_size L ∨ page'.total_size L ≤ page.max_size L) := by
      split at hok
      · exact h.limited.grow_sizes hL (chunks_enough hneed ‹_›).2 hok
      · cases hok
        exact ⟨rfl, .inl rfl⟩
    have hfits := h.fits
    have hlimit := h.max
    exact ⟨hlim, hsizes.1 ▸ hlimit, by omega,
      ⟨m, hother _ _ (by decide) ht.bytes, ht.pos, ht.nonempty⟩, hbytes⟩

end Stocked

variable {L : Layout} {s : Hwi} {names : List CString} {l m : List UInt8} {vs : List ℕ} {j v : ℕ}

/-- A field of a tag is read. -/
theorem Stocked.get (h : Stocked L s.page names (l ++ fields 2 vs ++ m)) (hoff : off = l.length)
    (hj : vs[j]? = some v) :
    s.get off j = v % 2 ^ 16 := by
  subst hoff
  exact h.bytes.holds.field hj

/-- A field of a tag is written. -/
theorem Stocked.put (hL : L.Valid) (h : Stocked L s.page names (l ++ fields 2 vs ++ m))
    (hoff : off = l.length)
    (hj : j < vs.length) (v : ℕ) :
      Stocked L (s.put off j v).page names (l ++ fields 2 (vs.set j v) ++ m) := by
  subst hoff
  obtain ⟨w, hw⟩ : ∃ w, vs[j]? = some w := ⟨_, List.getElem?_eq_getElem hj⟩
  have hbytes := h.bytes
  rw [fields_split hw, ← List.append_assoc, ← List.append_assoc, List.append_assoc _ _ m] at hbytes
  have hlen : (leBytes 2 w).length = (leBytes 2 v).length := by rw [length_leBytes, length_leBytes]
  have hplace : (l ++ fields 2 (vs.take j)).length = l.length + 2 * j := by
    rw [List.length_append, length_fields_take hj]
  obtain ⟨hlim, hb, hother⟩ := h.limited.write hL hbytes hlen
  have hput : (s.put l.length j v).page =
      s.page.written (s.page.p (some .hwinfo) + (l ++ fields 2 (vs.take j)).length)
        (leBytes 2 v) := by
    unfold Hwi.put Syspage.written
    rw [store_eq_write, hplace, Nat.add_assoc]
  obtain ⟨htotal, hmax⟩ := h.limited.written_sizes hL (Nat.le_add_right (s.page.p (some .hwinfo))
    (l ++ fields 2 (vs.take j)).length) (leBytes 2 v)
  obtain ⟨n, ht⟩ := h.table
  rw [hput]
  refine ⟨hlim, hmax ▸ h.max, htotal ▸ h.fits,
    ⟨n, hother _ _ (by decide) ht.bytes, ht.pos, ht.nonempty⟩, ?_⟩
  rwa [fields_set_split hj, ← List.append_assoc, ← List.append_assoc, List.append_assoc _ _ m]

@[simp] theorem put_offset (s : Hwi) (off j v : ℕ) : (s.put off j v).offset = s.offset := rfl

@[simp] theorem put_last_item (s : Hwi) (off j v : ℕ) : (s.put off j v).last_item = s.last_item :=
  rfl

end Startup
