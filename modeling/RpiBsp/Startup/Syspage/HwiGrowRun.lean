import RpiBsp.Startup.Syspage.HwiGrow
import RpiBsp.Startup.Syspage.HwiWalk

/-!
# Startup — Syspage — runs with tags that grow

What a consumer of the hwinfo section relies on, if tags are grown.

* `Preserved` — the walk visits the tags at the sizes they have grown to, and they are as their
callers left them.
* `Lined.preserved` — it holds of a section that is tags one behind the other.
* `hwi_grow_run` — it holds in every run in which no tag is allocated behind one that has grown.
-/

namespace Startup

open Support

variable {gs us vs : List Seg} {g u : Seg} {D : HwiDefs} {L : Layout} {s s' : Hwi}
    {names : List CString} {n off c : ℕ}

/-! ### The walk -/

/-- The walk visits every tag. -/
theorem walk_contents (hn : 2 ≤ n)
    (h : Stocked L s.page names (contents (us ++ gs) ++ List.replicate n 0))
    (hfits : ∀ g ∈ gs, g.Fits) {fuel : ℕ} (hfuel : gs.length < fuel) :
        s.walk fuel (total Seg.size us) =
      some ((laid Seg.size (total Seg.size us) gs).map Prod.fst,
      total Seg.size us + total Seg.size gs) := by
  obtain ⟨fuel, rfl⟩ := Nat.exists_eq_succ_of_ne_zero (Nat.ne_zero_of_lt hfuel)
  induction gs generalizing us fuel with
  | nil =>
      rw [List.append_nil] at h
      have hzero : s.get (total Seg.size us) 0 = 0 :=
        (h.zeros (k := 1) hn).get (length_contents us).symm
          (show (List.replicate 1 0)[0]? = some 0 from rfl)
      rw [Hwi.walk, if_pos hzero]
      rfl
  | cons g gs ih =>
      have hg := hfits g List.mem_cons_self
      have hlen := h.length_le
      rw [List.length_append, length_contents, total_append, total_cons] at hlen
      have hget : s.get (total Seg.size us) 0 = g.size / 4 := by
        have hkind := hg.kind
        rw [h.word (by omega), Seg.word, List.getD_eq_getElem?_getD, hg.first]
        exact Nat.mod_eq_of_lt (show g.size / 4 < 2 ^ 16 by omega)
      have hwords := hg.words
      have hpos := hg.four_le
      have hnext : total Seg.size (us ++ [g]) = total Seg.size us + g.size := by
        rw [total_append, total_cons, total_nil, Nat.add_zero]
      obtain ⟨fuel, rfl⟩ :=
        Nat.exists_eq_succ_of_ne_zero (show fuel ≠ 0 by rw [List.length_cons] at hfuel; omega)
      have hrest := @ih (us ++ [g]) (by rw [List.append_assoc]; exact h)
        (fun u hu => hfits u (List.mem_cons_of_mem _ hu)) fuel
          (by rw [List.length_cons] at hfuel; omega)
      rw [hnext] at hrest
      have hstep : total Seg.size us + s.get (total Seg.size us) 0 * 4 = total Seg.size us +
        g.size := by omega
      rw [Hwi.walk, if_neg (by omega), hstep, hrest, laid, total_cons, ← Nat.add_assoc]
      rfl

/-- Where the tags are that were asked for. -/
theorem owned_offs (gs : List Seg) :
    (owned gs).map Owned.off = ((laid Seg.size 0 gs).filter fun x => !x.2.pad).map Prod.fst := by
  rw [owned]
  induction laid Seg.size 0 gs with
  | nil => rfl
  | cons x xs ih =>
      cases hp : x.2.pad with
      | true => simp [Seg.owned, hp, ih]
      | false => simp [Seg.owned, hp, ih]

/-- The last item of one list of tags is there once. -/
theorem LastSeg.unique {last : ℕ} (h : LastSeg last c (us ++ u :: vs)) (hu : u.fields.length = 6)
    (hvs : ∀ v ∈ vs, v.fields.length = 2) : last = total Seg.size us ∧ u.fields[2]? = some c := by
  obtain ⟨us', u', vs', hsplit, hu', hvs', rfl, hc⟩ := h
  rcases List.append_eq_append_iff.mp hsplit with ⟨ts, rfl, hts⟩ | ⟨ts, rfl, hts⟩
  · cases ts with
    | nil =>
        obtain ⟨rfl, -⟩ := List.cons.inj hts
        rw [List.append_nil]
        exact ⟨rfl, hc⟩
    | cons t ts =>
        obtain ⟨rfl, rfl⟩ := List.cons.inj hts
        have htwo := hvs u' (by simp)
        omega
  · cases ts with
    | nil =>
        obtain ⟨rfl, -⟩ := List.cons.inj hts
        rw [List.append_nil]
        exact ⟨rfl, hc⟩
    | cons t ts =>
        obtain ⟨rfl, rfl⟩ := List.cons.inj hts
        have htwo := hvs' u (by simp)
        omega

/-- The tags that were asked for are found, at the sizes that they have grown to, and as their
callers left them. -/
structure Preserved (D : HwiDefs) (s : Hwi) (as : List Owned) (offs : List ℕ) (fin : ℕ) : Prop where
  /-- The walk visits them in order, with pads between them. -/
  visited : s.walk (s.page.size (some .hwinfo)) 0 = some (offs, fin)
  exactly : offs.filter (· ∈ as.map Owned.off) = as.map Owned.off
  pads : ∀ x ∈ offs, x ∉ as.map Owned.off → s.get x 0 = 1 ∧ Denotes s.page (s.get x 1) D.pad
  sizes : ∀ a ∈ as, s.get a.off 0 * 4 = a.size
  /-- Nothing was written over them. -/
  kept : ∀ a ∈ as, s.get a.off 1 = a.name ∧
    (∀ name owner, a.item = some (name, owner) → s.get a.off 3 = name ∧ s.get a.off 4 = owner) ∧
    Holds s.page.mem (s.page.p (some .hwinfo) + a.start) a.body
  /-- The size of the last item is that of everything from it on. -/
  last : ∀ front a back, as = front ++ a :: back → a.item.isSome → (∀ b ∈ back, b.item = none) →
    a.off + s.get a.off 2 * 4 = fin

theorem Lined.pos {grown : ℕ} (h : Lined D L s gs grown) : ∀ g ∈ gs, 0 < g.size :=
  fun g hg => Nat.lt_of_lt_of_le (by decide) (h.fits g hg).four_le

/-- The size of a tag is read in its prefix. -/
theorem Lined.sized {grown : ℕ} (h : Lined D L s (us ++ u :: vs) grown) :
    s.get (total Seg.size us) 0 = u.size / 4 := by
  have htotal := h.total_le
  have hfits := h.fits u (by simp)
  have hkind := hfits.kind
  rw [total_append, total_cons] at htotal
  rw [h.word (by omega), Seg.word, List.getD_eq_getElem?_getD, hfits.first]
  exact Nat.mod_eq_of_lt (show u.size / 4 < 2 ^ 16 by omega)

theorem Lined.visited {grown : ℕ} (h : Lined D L s gs grown) :
    s.walk (s.page.size (some .hwinfo)) 0 =
    some ((laid Seg.size 0 gs).map Prod.fst, total Seg.size gs) := by
  obtain ⟨names, n, hn, hst, -⟩ := h.stocked
  have hbytes := hst.bytes.size
  have hle := length_le_total h.pos
  rw [List.length_append, length_contents, List.length_replicate] at hbytes
  have hwalk := @walk_contents gs [] L s names n (by omega) hst h.fits (s.page.size (some .hwinfo))
    (by omega)
  rwa [total_nil, Nat.zero_add] at hwalk

/-- What is visited and was not asked for is a pad. -/
theorem Lined.padded {grown x : ℕ} (h : Lined D L s gs grown)
    (hx : x ∈ (laid Seg.size 0 gs).map Prod.fst)
    (hother : x ∉ (owned gs).map Owned.off) : s.get x 0 = 1 ∧ Denotes s.page (s.get x 1) D.pad := by
  obtain ⟨⟨y, u⟩, hy, rfl⟩ := List.mem_map.mp hx
  rw [owned_offs, mem_picked_iff h.pos _ hy] at hother
  obtain ⟨names, n, -, hst, hpads⟩ := h.stocked
  obtain ⟨us, vs, rfl, rfl⟩ := mem_laid hy
  obtain ⟨hfour, o, ho, hfield⟩ := hpads u (by simp) (by simpa using hother)
  obtain ⟨m, ht⟩ := hst.table
  have hkind := (h.fits u (by simp)).kind
  rw [Nat.zero_add]
  constructor
  · rw [h.sized, hfour]
  · rw [h.word (by omega), Seg.word, List.getD_eq_getElem?_getD, hfield, Option.getD_some,
      Nat.mod_eq_of_lt (hst.place_lt ho)]
    exact ht.denotes ho

/-- A tag is as its caller left it. -/
theorem Lined.kept {grown : ℕ} (h : Lined D L s gs grown) {a : Owned} (ha : a ∈ owned gs) :
    s.get a.off 1 = a.name ∧
    (∀ name owner, a.item = some (name, owner) → s.get a.off 3 = name ∧ s.get a.off 4 = owner) ∧
    Holds s.page.mem (s.page.p (some .hwinfo) + a.start) a.body := by
  obtain ⟨names, n, -, hst, -⟩ := h.stocked
  obtain ⟨us, u, vs, rfl, -, rfl⟩ := mem_owned ha
  have hkind := (h.fits u (by simp)).kind
  refine ⟨h.word (by omega), fun name owner hitem => ?_, ?_⟩
  · by_cases hsix : u.fields.length = 6
    · rw [if_pos hsix] at hitem
      obtain ⟨rfl, rfl⟩ := Prod.mk.inj (Option.some.inj hitem)
      exact ⟨h.word (by omega), h.word (by omega)⟩
    · rw [if_neg hsix] at hitem
      cases hitem
  · have hbytes := hst.bytes.holds
    rw [contents_split, List.append_assoc u.body, ← List.append_assoc _ u.body] at hbytes
    have hbody := (holds_append.mp (holds_append.mp hbytes).1).2
    rw [List.length_append, length_contents, length_fields] at hbody
    rw [Owned.start]
    rcases hkind with hkind | hkind
    · simpa [hkind, Nat.add_assoc] using hbody
    · simpa [hkind, Nat.add_assoc] using hbody

/-- The last item of a caller has no other item behind it. -/
theorem Lined.behind {grown : ℕ} (h : Lined D L s (us ++ u :: vs) grown)
    (hback : ∀ b ∈ (laid Seg.size off vs).filterMap Seg.owned, b.item = none) :
      ∀ v ∈ vs, v.fields.length = 2 := by
  obtain ⟨names, n, -, -, hpads⟩ := h.stocked
  intro v hv
  refine (h.fits v (by simp [hv])).kind.resolve_right fun hsix => ?_
  by_cases hpad : v.pad = true
  · obtain ⟨hfour, -⟩ := hpads v (by simp [hv]) hpad
    rw [Seg.size] at hfour
    omega
  · obtain ⟨x, hx⟩ := exists_laid Seg.size off hv
    have hnone := hback _ (List.mem_filterMap.mpr ⟨_, hx, if_neg hpad⟩)
    simp [hsix] at hnone

/-- The size of the last item. -/
theorem Lined.span {grown : ℕ} (h : Lined D L s gs grown) {front back : List Owned} {a : Owned}
    (hsplit : owned gs = front ++ a :: back) (hitem : a.item.isSome)
    (hback : ∀ b ∈ back, b.item = none) :
    a.off + s.get a.off 2 * 4 = total Seg.size gs := by
  have htotal := h.total_le
  obtain ⟨us, u, vs, rfl, -, hu, rfl⟩ := owned_split hsplit
  obtain ⟨c, hlast, hcount⟩ := h.last (by simp)
  obtain ⟨-, rfl⟩ := owned_eq_some hu
  have hsix : u.fields.length = 6 := by
    by_contra hne
    simp [hne] at hitem
  obtain ⟨hplace, hspan⟩ := hlast.unique hsix (h.behind hback)
  dsimp only
  rw [h.word (by omega), Seg.word, List.getD_eq_getElem?_getD, hspan, Option.getD_some,
    ← hcount, hplace, Nat.mod_eq_of_lt (by omega)]
  omega

/-- A section that is tags, one behind the other, preserves them. -/
theorem Lined.preserved {grown : ℕ} (h : Lined D L s gs grown) :
    Preserved D s (owned gs) ((laid Seg.size 0 gs).map Prod.fst) (total Seg.size gs) where
  visited := h.visited
  exactly := by
    rw [owned_offs]
    exact filter_picked h.pos _
  pads _ hx hother := h.padded hx hother
  sizes a ha := by
    obtain ⟨us, u, vs, rfl, -, rfl⟩ := mem_owned ha
    have hwords := (h.fits u (by simp)).words
    dsimp only
    rw [h.sized]
    omega
  kept _ ha := h.kept ha
  last _ _ _ hsplit hitem hback := h.span hsplit hitem hback

/-! ### Runs -/

/-- Calls of `hwi_alloc_tag`, `hwi_alloc_item` and `hwi_grow_tag`, the last one on the tag that was
allocated last, and stores of callers behind the fields of their tags, among strings and other calls
on a page of 64 KiB at most.  The list has what callers have; the last index says whether a tag has
grown.  With `late`, tags may be allocated after that. -/
inductive GrowRun (D : HwiDefs) (L : Layout) (late : Bool) (s₀ : Syspage Sect) :
    Hwi → List Owned → Bool → Prop where
  | start : GrowRun D L late s₀ ⟨s₀, 0, 0⟩ [] false
  | string {s : Hwi} {as : List Owned} {grown : Bool} {name : CString} {off : ℕ}
      {page : Syspage Sect} :
      GrowRun D L late s₀ s as grown → CString.Short name →
      add_string L name s.page = .ok (off, page) →
      GrowRun D L late s₀ { s with page := page } as grown
  | page {s : Hwi} {as : List Owned} {grown : Bool} {page : Syspage Sect} :
      GrowRun D L late s₀ s as grown → PageStep L s.page page → page.max_size L ≤ 2 ^ 16 →
      GrowRun D L late s₀ { s with page := page } as grown
  | tag {s s' : Hwi} {as : List Owned} {grown : Bool} {info : TagInfo} {off depth : ℕ} :
      GrowRun D L late s₀ s as grown → (grown = true → late = true) → as ≠ [] → info.Ok →
      hwi_alloc_tag D L (depth + 2) info s = .ok (off, s') →
      GrowRun D L late s₀ s'
        (as ++ [⟨off, info.size, s'.get off 1, none, List.replicate (info.size - 4) 0⟩]) grown
  | item {s s' : Hwi} {as : List Owned} {grown : Bool} {info : TagInfo} {itemname : CString}
      {owner off depth : ℕ} :
      GrowRun D L late s₀ s as grown → (grown = true → late = true) → info.OkItem →
      CString.Short itemname →
      (owner = D.null_off ∨ ∃ a ∈ as, a.item.isSome ∧ a.off = owner) →
      hwi_alloc_item D L (depth + 2) info itemname owner s = .ok (off, s') →
      GrowRun D L late s₀ s'
        (as ++ [⟨off, info.size, s'.get off 1, some (s'.get off 3, s'.get off 4),
        List.replicate (info.size - 12) 0⟩])
        grown
  | grow {s s' : Hwi} {front : List Owned} {a : Owned} {grown : Bool} {size off : ℕ} :
      GrowRun D L late s₀ s (front ++ [a]) grown → 4 ∣ size → size ≤ 2 ^ 31 - 8 →
      hwi_grow_tag L a.off size s = .ok (off, s') →
      GrowRun D L late s₀ s'
          (front ++ [{ a with size := a.size + size, body := a.body ++ List.replicate size 0 }])
        (grown || decide (0 < size))
  | fill {s : Hwi} {front back : List Owned} {a : Owned} {grown : Bool} {i : ℕ} {bs : List UInt8} :
      GrowRun D L late s₀ s (front ++ a :: back) grown → i + bs.length ≤ a.body.length →
      GrowRun D L late s₀ (a.fill i bs s)
        (front ++ { a with body := refilled a.body i bs } :: back) grown

variable {s₀ : Syspage Sect} {as : List Owned}

/-- A caller's tag after a store. -/
theorem Seg.filled_owned {a : Owned} {i : ℕ} {bs : List UInt8} (h : Seg.owned (off, g) = some a)
    (hi : i + bs.length ≤ a.body.length) :
      Seg.owned (off, g.filled i bs) = some { a with body := refilled a.body i bs } := by
  obtain ⟨hpad, rfl⟩ := owned_eq_some h
  have hpad' : (g.filled i bs).pad = false := hpad
  rw [Seg.owned, hpad', Seg.filled_size hi]
  rfl

/-- **What a run keeps.**  If no tag is allocated behind one that has grown, the section is tags,
one behind the other, that are as their callers left them. -/
theorem GrowRun.lined (hL : L.Valid) (hD : D.Valid) (h₀ : Lined D L ⟨s₀, 0, 0⟩ [] 0) {grown : Bool}
    (hrun : GrowRun D L false s₀ s as grown) :
    ∃ gs k, Lined D L s gs k ∧ Closed gs ∧ owned gs = as ∧ (grown = false → k = 0) := by
  have hungrown : ∀ {grown : Bool}, (grown = true → false = true) → grown = false := by
    intro grown h
    exact Bool.eq_false_of_not_eq_true fun htrue => absurd (h htrue) (by decide)
  induction hrun with
  | start => exact ⟨[], 0, h₀, fun us g hsplit => absurd hsplit (by simp), rfl, fun _ => rfl⟩
  | string _ hname hadd ih =>
      obtain ⟨gs, k, h, hclosed, howned, hk⟩ := ih
      obtain ⟨names, n, hn, hst, hpads⟩ := h.stocked
      rcases hst.string hL hname with hover | ⟨off', page', names', hok, hst', hsub, -⟩
      · rw [hadd] at hover
        cases hover
      · obtain ⟨rfl, rfl⟩ := Prod.mk.inj (Except.ok.inj (hadd.symm.trans hok))
        exact ⟨gs, k, h.paged ⟨names', n, hn, hst', fun g hg => (hpads g hg).grow hsub⟩, hclosed,
          howned, hk⟩
  | page _ hstep hmax ih =>
      obtain ⟨gs, k, h, hclosed, howned, hk⟩ := ih
      obtain ⟨names, n, hn, hst, hpads⟩ := h.stocked
      obtain ⟨m, hst'⟩ := hst.pageStep hL hstep hmax
      rw [List.append_assoc, List.replicate_append_replicate] at hst'
      exact ⟨gs, k, h.paged ⟨names, n + m, by omega, hst', hpads⟩, hclosed, howned, hk⟩
  | tag _ hlate hne hok hres ih =>
      obtain ⟨gs, k, h, -, rfl, hk⟩ := ih
      obtain rfl := hk (hungrown hlate)
      have hgs : gs ≠ [] := fun hnil => hne (hnil ▸ rfl)
      obtain ⟨gs', h', howned, hclosed⟩ := h.alloc_tag hL hD hgs hok hres
      exact ⟨gs', 0, h', hclosed, howned, fun _ => rfl⟩
  | item _ hlate hok hname howner hres ih =>
      obtain ⟨gs, k, h, -, rfl, hk⟩ := ih
      obtain rfl := hk (hungrown hlate)
      obtain ⟨gs', h', howned, hclosed⟩ :=
        h.alloc_item hL hD hok.toOk hok.twelve_le hname howner hres
      exact ⟨gs', 0, h', hclosed, howned, fun _ => rfl⟩
  | @grow s s' front a grown size off _ hwords hsize hres ih =>
      obtain ⟨gs, k, h, hclosed, howned, hk⟩ := ih
      obtain ⟨us, u, rfl, rfl, hu⟩ := owned_last howned hclosed
      obtain ⟨hpad, hoff⟩ := owned_eq_some hu
      have hplace : a.off = total Seg.size us := by rw [hoff]
      rw [hplace] at hres
      obtain ⟨fs, f, h', hfs, hf⟩ := h.grow hL hpad hwords hsize hres
      refine ⟨_, k + size, h', closed_concat fs (hf.pad.trans hpad), ?_, fun hnone => ?_⟩
      · rw [owned_append, like_total hfs, like_owned hfs, laid,
          List.filterMap_cons_some (Seg.grown_owned ((hf.owned _).trans hu) size)]
        rfl
      · rw [Bool.or_eq_false_iff] at hnone
        have hzero := hk hnone.1
        have hsize₀ := of_decide_eq_false hnone.2
        omega
  | fill _ hi ih =>
      obtain ⟨gs, k, h, hclosed, howned, hk⟩ := ih
      obtain ⟨us, u, vs, rfl, rfl, hu, rfl⟩ := owned_split howned
      have hbody : u.body = _ := (owned_start hu (h.fits u (by simp)).kind).2.symm
      refine ⟨_, k, h.fill hL hu hi, hclosed.replace rfl, ?_, hk⟩
      rw [owned_append, laid, List.filterMap_cons_some (Seg.filled_owned hu hi),
        Seg.filled_size (by rw [hbody]; exact hi)]

/-- **The tags are as they were left.**  From the page as it is set up, in every run in which no tag
is allocated behind one that has grown: the walk visits the tags that were asked for, at the sizes
they have grown to, nothing was written over them, and the size of the last item is that of all its
tags. -/
theorem hwi_grow_run (hL : L.Valid) (hsp : L.spsize ≤ 2 ^ 31) (hD : D.Valid) (hs₀ : InitPage L 4 s₀)
    (hmax : s₀.max_size L ≤ 2 ^ 16) {grown : Bool} (hrun : GrowRun D L false s₀ s as grown) :
    ∃ offs fin, Preserved D s as offs fin := by
  obtain ⟨n, hn, hst⟩ := (hs₀.kept (D := D) hL hsp hmax).stocked
  have h₀ : Lined D L ⟨s₀, 0, 0⟩ [] 0 :=
    ⟨⟨[], n, hn, hst, fun g hg => absurd hg List.not_mem_nil⟩, rfl, fun g hg =>
      absurd hg List.not_mem_nil, fun hne => absurd rfl hne⟩
  obtain ⟨gs, k, h, -, rfl, -⟩ := hrun.lined hL hD h₀
  exact ⟨_, _, h.preserved⟩

/-! ### Runs on a small page -/

/-- An item and a tag behind it, which grows after its caller has stored in it, and is stored in
once more. -/
theorem hwi_grow_run_two :
    ∃ s₀ s as, stringsPage = .ok s₀ ∧ as.map (fun a : Owned => (a.off, a.size, a.body)) =
      [(0, 12, []), (16, 16, [1, 2, 3, 4, 5, 6, 0, 0, 0, 0, 0, 0])] ∧
    GrowRun smallDefs smallLayout false s₀ s as true ∧
    ∃ offs fin, Preserved smallDefs s as offs fin := by
  have hrun : (do
      let p ← stringsPage
      let r₁ ← hwi_alloc_item smallDefs smallLayout 2 ⟨longString, 12, 4⟩ shortString 0xffff
        ⟨p, 0, 0⟩
      let r₂ ← hwi_alloc_tag smallDefs smallLayout 2 ⟨shortString, 8, 8⟩ r₁.2
      let r₃ ← hwi_grow_tag smallLayout 16 8
        (Owned.fill ⟨16, 8, 0, none, [0, 0, 0, 0]⟩ 0 [1, 2, 3, 4] r₂.2)
      return (p.max_size smallLayout, r₁.1, r₂.1, r₃.1)).toOption = some (0x800, 0, 16, 16) := by
    decide +kernel
  obtain ⟨s₀, hs₀, hrun⟩ := bind_eq_ok.mp (toOption_eq_some.mp hrun)
  obtain ⟨⟨o₁, s₁⟩, hs₁, hrun⟩ := bind_eq_ok.mp hrun
  obtain ⟨⟨o₂, s₂⟩, hs₂, hrun⟩ := bind_eq_ok.mp hrun
  obtain ⟨⟨o₃, s₃⟩, hs₃, hrun⟩ := bind_eq_ok.mp hrun
  obtain ⟨hmax, rfl, rfl, rfl⟩ : s₀.max_size smallLayout = 0x800 ∧ o₁ = 0 ∧ o₂ = 16 ∧ o₃ = 16 := by
    simpa only [Prod.mk.injEq] using Except.ok.inj hrun
  have hshort : CString.Short shortString := by unfold CString.Short; decide
  have hlong : CString.Short longString := by unfold CString.Short; decide
  have hitem : GrowRun smallDefs smallLayout false s₀ s₁ _ false :=
    .item .start (fun h => absurd h (by decide))
      ⟨⟨by decide, by decide, by decide, .inl rfl, hlong⟩, by decide⟩ hshort
      (.inl rfl) hs₁
  have htag : GrowRun smallDefs smallLayout false s₀ s₂ _ false :=
    .tag hitem (fun h => absurd h (by decide)) (List.cons_ne_nil _ _)
      ⟨by decide, by decide, by decide, .inr rfl, hshort⟩ hs₂
  have hfilled := GrowRun.fill htag (show 0 + [1, 2, 3, 4].length ≤ 4 by decide)
  have hgrown := GrowRun.grow hfilled (show 4 ∣ 8 by decide) (by decide) hs₃
  have hall := GrowRun.fill hgrown (show 4 + [5, 6].length ≤ 12 by decide)
  exact ⟨s₀, _, _, hs₀, rfl, hall, hwi_grow_run smallLayout_valid (by decide) smallDefs_valid
    (stringsPage_init hs₀) (by rw [hmax]; decide) hall⟩

/-- A tag that is allocated behind an item that has grown is put into it: the walk does not visit
it. -/
theorem hwi_grow_run_late :
    ∃ s₀ s as, stringsPage = .ok s₀ ∧ GrowRun smallDefs smallLayout true s₀ s as true ∧
    ∀ offs fin, ¬ Preserved smallDefs s as offs fin := by
  have hrun : (do
      let p ← stringsPage
      let r₁ ← hwi_alloc_item smallDefs smallLayout 2 ⟨longString, 12, 4⟩ shortString 0xffff
        ⟨p, 0, 0⟩
      let r₂ ← hwi_grow_tag smallLayout 0 4 r₁.2
      let r₃ ← hwi_alloc_tag smallDefs smallLayout 2 ⟨shortString, 4, 4⟩ r₂.2
      return (r₁.1, r₂.1, r₃.1, r₃.2.walk (r₃.2.page.size (some .hwinfo)) 0)).toOption =
        some (0, 0, 12, some ([0], 16)) := by decide +kernel
  obtain ⟨s₀, hs₀, hrun⟩ := bind_eq_ok.mp (toOption_eq_some.mp hrun)
  obtain ⟨⟨o₁, s₁⟩, hs₁, hrun⟩ := bind_eq_ok.mp hrun
  obtain ⟨⟨o₂, s₂⟩, hs₂, hrun⟩ := bind_eq_ok.mp hrun
  obtain ⟨⟨o₃, s₃⟩, hs₃, hrun⟩ := bind_eq_ok.mp hrun
  obtain ⟨rfl, rfl, rfl, hwalk⟩ : o₁ = 0 ∧ o₂ = 0 ∧ o₃ = 12 ∧
      s₃.walk (s₃.page.size (some .hwinfo)) 0 = some ([0], 16) := by
    simpa only [Prod.mk.injEq] using Except.ok.inj hrun
  have hshort : CString.Short shortString := by unfold CString.Short; decide
  have hlong : CString.Short longString := by unfold CString.Short; decide
  have hitem : GrowRun smallDefs smallLayout true s₀ s₁ _ false :=
    .item .start (fun _ => rfl) ⟨⟨by decide, by decide, by decide, .inl rfl, hlong⟩, by decide⟩
      hshort (.inl rfl) hs₁
  have hgrown := GrowRun.grow hitem (show 4 ∣ 4 by decide) (by decide) hs₂
  have hall := GrowRun.tag hgrown (fun _ => rfl) (List.cons_ne_nil _ _)
    ⟨by decide, by decide, by decide, .inl rfl, hshort⟩ hs₃
  refine ⟨s₀, s₃, _, hs₀, hall, fun offs fin h => ?_⟩
  have hvisited := h.visited
  rw [hwalk] at hvisited
  obtain ⟨rfl, -⟩ := Prod.mk.inj (Option.some.inj hvisited)
  exact absurd h.exactly (show ¬ [0].filter (· ∈ [0, 12]) = [0, 12] by decide)

end Startup
