import RpiBsp.Startup.Ram.Apart
import RpiBsp.Startup.Ram.Range

/-!
# Startup — the secondary image file system

`restore_ifs.c`: a secondary image is copied to RAM, and a structure beside it says so.  If RAM was
kept, the next boot finds both and does not copy.  Both boots compute the same addresses, as they
start with the same RAM tables.

The structure has a signature of eight bytes, its checksum, and the size of the image.
`rifs_restore_ifs2` looks at the checksum, but not at the signature.  On a secure system `alloc_ram`
clears what it gives out, and with it what the boot before has left there: a destination that it
chose, and the structure, which is then taken for a valid one.

* `rifs_checksum_save` — a structure that was saved has the checksum 0.
* `info_apart` — a destination that `alloc_ram` chose does not meet the structure.
* `foundAgain_iff`, `two_boots` — what the second boot does with what the first one left.
* `load_ifs2_reserved_iff` — the destination is reserved, unless the user chose it and the image is
found there.
-/

namespace Startup

open Support

/-- Physical memory. -/
abbrev Mem := ℕ → UInt8

/-! ### The code -/

/-- `RIFS_SIGNATURE`, `rifsboot`. -/
def RIFS_SIGNATURE : List UInt8 := [0x72, 0x69, 0x66, 0x73, 0x62, 0x6f, 0x6f, 0x74]

/-- `IMAGE_SIGNATURE`, `imagefs`. -/
def IMAGE_SIGNATURE : List UInt8 := [0x69, 0x6d, 0x61, 0x67, 0x65, 0x66, 0x73]

/-- The size of `restore_ifs2_info`, and where its fields are. -/
def INFO_SIZE : ℕ := 16
def INFO_CKSUM : ℕ := 8
def INFO_IMAGE_SIZE : ℕ := 12

/-- Where the size is in the header of an image. -/
def HDR_IMAGE_SIZE : ℕ := 8

/-- The sum of `n` words. -/
def sumWords (m : Mem) : ℕ → ℕ → BitVec 32
  | 0, _ => 0
  | n + 1, ptr => BitVec.ofNat 32 (load 4 ptr m) + sumWords m n (ptr + 4)

/-- `rifs_checksum`: a part of a word counts as a word. -/
def rifs_checksum (m : Mem) (ptr len : ℕ) : BitVec 32 := sumWords m ((len + 3) / 4) ptr

/-- `check_ifs_signature`. -/
def check_ifs_signature (m : Mem) (ifs_hdr : ℕ) : Bool := bytes m ifs_hdr 7 = IMAGE_SIGNATURE

/-- The options of the secondary image; `auto` is the source if none is given. -/
structure Ifs2 where
  ifs2_size : ℕ
  src : Option ℕ
  dst : Option ℕ
  restore : Bool
  cksum : Bool
  auto : ℕ

def Ifs2.source (o : Ifs2) : ℕ := o.src.getD o.auto

/-- What `rifs_restore_ifs2` finds: whether it returns 0. -/
def Ifs2.valid (o : Ifs2) (m : Mem) (dst info : ℕ) : Bool :=
  if check_ifs_signature m dst = true ∧ rifs_checksum m info INFO_SIZE = 0 then
    if o.cksum then rifs_checksum m dst (load 4 (info + INFO_IMAGE_SIZE) m) = 0 else true
  else false

/-- What `alloc_ram` does to memory when it found RAM: a secure system clears it. -/
def clearFound (secure_system : Bool) (found size : ℕ) (m : Mem) : Mem :=
  if secure_system ∧ found ≠ NULL_PADDR then memset (found % 2 ^ 32) size 0 m else m

/-- `alloc_ram(NULL_PADDR, ..)`, with memory. -/
def allocate (size align : ℕ) (m : Mem) (s : RamState) : Except Crash (ℕ × Mem × RamState) := do
  let r ← alloc_ram NULL_PADDR size align s
  return (r.1, clearFound s.secure_system r.1 size m, r.2)

/-- `rifs_restore_ifs2`: whether it returns 0, the structure, memory and the RAM tables. -/
def rifs_restore_ifs2 (o : Ifs2) (dst : ℕ) (m : Mem) (s : RamState) :
    Except Crash (Bool × ℕ × Mem × RamState) := do
  let r ← allocate INFO_SIZE 8 m s
  return (o.valid r.2.1 dst r.1, r.1, r.2.1, r.2.2)

/-- The end of `rifs_load_ifs2`: the structure is made. -/
def saveInfo (info dst : ℕ) (m : Mem) : Mem :=
  let m := write info RIFS_SIGNATURE m
  let m := store 4 (info + INFO_IMAGE_SIZE) (load 4 (dst + HDR_IMAGE_SIZE) m) m
  let m := store 4 (info + INFO_CKSUM) 0 m
  store 4 (info + INFO_CKSUM) (-rifs_checksum m info INFO_SIZE).toNat m

/-- A destination that the user chose is reserved. -/
def Ifs2.reserve (o : Ifs2) (s : RamState) : Except Crash RamState :=
  match o.dst with
  | some d => (alloc_ram d o.ifs2_size 0x1000 s).map Prod.snd
  | none => .ok s

/-- `rifs_load_ifs2`; `info` is there if the image is to be restored the next time. -/
def rifs_load_ifs2 (o : Ifs2) (dst : ℕ) (info : Option ℕ) (m : Mem) (s : RamState) :
    Except Crash (Mem × RamState) := do
  let s ← o.reserve s
  let m := memmove dst o.source o.ifs2_size m
  match info with
  | some info => return (saveInfo info dst m, s)
  | none => return (m, s)

/-- What a boot leaves. -/
structure Ifs2Boot where
  mem : Mem
  dst : ℕ
  /-- `rifs2_info`, if it was set. -/
  info : Option ℕ
  /-- Whether the image was found in RAM. -/
  restored : Bool
  tables : RamState

/-- Where the image is to be in RAM. -/
def Ifs2.destination (o : Ifs2) (m : Mem) (s : RamState) : Except Crash (ℕ × Mem × RamState) :=
  match o.dst with
  | some d => .ok (d, m, s)
  | none => allocate o.ifs2_size 0x1000 m s

/-- `load_ifs2_nonbootable`. -/
def load_ifs2_nonbootable (o : Ifs2) (m : Mem) (s : RamState) : Except Crash Ifs2Boot := do
  let r ← o.destination m s
  if o.restore then
    let q ← rifs_restore_ifs2 o r.1 r.2.1 r.2.2
    if q.1 then return ⟨q.2.2.1, r.1, some q.2.1, true, q.2.2.2⟩
    else
      let l ← rifs_load_ifs2 o r.1 (some q.2.1) q.2.2.1 q.2.2.2
      return ⟨l.1, r.1, some q.2.1, false, l.2⟩
  else
    let l ← rifs_load_ifs2 o r.1 none r.2.1 r.2.2
    return ⟨l.1, r.1, none, false, l.2⟩

/-! ### Checksums -/

theorem sumWords_congr {m m' : Mem} (n : ℕ) :
    ∀ {ptr ptr' : ℕ}, (∀ j < 4 * n, m (ptr + j) = m' (ptr' + j)) →
    sumWords m n ptr = sumWords m' n ptr' := by
  induction n with
  | zero => exact fun _ => rfl
  | succ n ih =>
      intro ptr ptr' h
      have hword : load 4 ptr m = load 4 ptr' m' := load_eq fun j hj => h j (by omega)
      have hrest : sumWords m n (ptr + 4) = sumWords m' n (ptr' + 4) := by
        refine ih fun j hj => ?_
        have hj' := h (4 + j) (by omega)
        rwa [← Nat.add_assoc, ← Nat.add_assoc] at hj'
      rw [sumWords, sumWords, hword, hrest]

/-- The sum of the words of a structure but for its checksum. -/
def infoSum (m : Mem) (info : ℕ) : BitVec 32 :=
  BitVec.ofNat 32 (load 4 info m) + BitVec.ofNat 32 (load 4 (info + 4) m) +
    BitVec.ofNat 32 (load 4 (info + INFO_IMAGE_SIZE) m)

theorem infoSum_store (info v : ℕ) (m : Mem) :
    infoSum (store 4 (info + INFO_CKSUM) v m) info = infoSum m info := by
  unfold infoSum INFO_CKSUM INFO_IMAGE_SIZE
  rw [load_store_apart (by omega), load_store_apart (by omega), load_store_apart (by omega)]

theorem rifs_checksum_store (info v : ℕ) (m : Mem) :
    rifs_checksum (store 4 (info + INFO_CKSUM) v m) info INFO_SIZE = infoSum m info +
      BitVec.ofNat 32 v := by
  have hsum : ∀ f : Mem, rifs_checksum f info INFO_SIZE = BitVec.ofNat 32 (load 4 info f) +
      (BitVec.ofNat 32 (load 4 (info + 4) f) + (BitVec.ofNat 32 (load 4 (info + INFO_CKSUM) f) +
        (BitVec.ofNat 32 (load 4 (info + INFO_IMAGE_SIZE) f) + 0))) := fun f => rfl
  have hv : BitVec.ofNat 32 (v % 256 ^ 4) = BitVec.ofNat 32 v := by
    apply BitVec.eq_of_toNat_eq
    simp
  rw [hsum, ← infoSum_store info v m, infoSum, load_store, hv]
  ac_rfl

/-- **The checksum of a structure that was saved is 0.** -/
theorem rifs_checksum_save (info dst : ℕ) (m : Mem) :
    rifs_checksum (saveInfo info dst m) info INFO_SIZE = 0 := by
  unfold saveInfo
  dsimp only
  rw [rifs_checksum_store, rifs_checksum_store, infoSum_store, BitVec.ofNat_toNat,
    BitVec.setWidth_eq]
  generalize infoSum _ info = x
  bv_omega

/-! ### What is saved and what is found -/

/-- The two ranges have no byte in common. -/
def Away (a n b k : ℕ) : Prop := a + n ≤ b ∨ b + k ≤ a ∨ n = 0 ∨ k = 0

instance (a n b k : ℕ) : Decidable (Away a n b k) := inferInstanceAs (Decidable (_ ∨ _))

theorem saveInfo_outside {info dst j : ℕ} {m : Mem} (h : j < info ∨ info + INFO_SIZE ≤ j) :
    saveInfo info dst m j = m j := by
  unfold saveInfo INFO_SIZE INFO_CKSUM INFO_IMAGE_SIZE at *
  rw [store_outside (by omega), store_outside (by omega), store_outside (by omega),
    write_outside (by simp only [RIFS_SIGNATURE, List.length_cons, List.length_nil]; omega)]

/-- The destination after a load is the source before it. -/
theorem loaded_byte {o : Ifs2} {dst info j : ℕ} {m : Mem}
    (haway : Away info INFO_SIZE dst o.ifs2_size) (hj : j < o.ifs2_size) :
    saveInfo info dst (memmove dst o.source o.ifs2_size m) (dst + j) = m (o.source + j) := by
  unfold Away INFO_SIZE at haway
  rw [saveInfo_outside (by unfold INFO_SIZE; omega), memmove_inside hj]

/-- The size that is saved is the one in the header, if the header is in the destination. -/
theorem load_image_size {info dst size : ℕ} {m : Mem} (haway : Away info INFO_SIZE dst size)
    (hsize : 12 ≤ size) :
    load 4 (info + INFO_IMAGE_SIZE) (saveInfo info dst m) = load 4 (dst + HDR_IMAGE_SIZE) m := by
  unfold Away INFO_SIZE at haway
  unfold saveInfo INFO_CKSUM INFO_IMAGE_SIZE HDR_IMAGE_SIZE
  dsimp only
  rw [load_store_apart (by omega), load_store_apart (by omega), load_store]
  have hhdr : load 4 (dst + 8) (write info RIFS_SIGNATURE m) = load 4 (dst + 8) m :=
    load_eq fun j hj =>
      write_outside (by simp only [RIFS_SIGNATURE, List.length_cons, List.length_nil]; omega)
  rw [hhdr, Nat.mod_eq_of_lt (load_lt 4 _ _)]

/-- An image that fits: its signature and its size are in the part that is copied, and if it is to
be checked, all of its words are and their sum is 0. -/
structure Ifs2.Image (o : Ifs2) (m : Mem) : Prop where
  signature : bytes m o.source 7 = IMAGE_SIGNATURE
  header : 12 ≤ o.ifs2_size
  fits : o.cksum = true → (load 4 (o.source + HDR_IMAGE_SIZE) m + 3) / 4 * 4 ≤ o.ifs2_size
  sum : o.cksum = true → rifs_checksum m o.source (load 4 (o.source + HDR_IMAGE_SIZE) m) = 0

theorem check_ifs_signature_congr {m m' : Mem} {a b : ℕ} (h : ∀ j < 7, m' (a + j) = m (b + j)) :
    check_ifs_signature m' a = check_ifs_signature m b := by
  unfold check_ifs_signature
  rw [show bytes m' a 7 = bytes m b 7 from List.map_congr_left fun j hj =>
    h j (List.mem_range.mp hj)]

/-- Only the part that is copied matters. -/
theorem Ifs2.Image.congr {o : Ifs2} {m m' : Mem} (h : o.Image m)
    (hsame : ∀ j < o.ifs2_size, m' (o.source + j) = m (o.source + j)) :
    o.Image m' := by
  have hheader := h.header
  have hsize : load 4 (o.source + HDR_IMAGE_SIZE) m' = load 4 (o.source + HDR_IMAGE_SIZE) m := by
    unfold HDR_IMAGE_SIZE
    refine load_eq fun j hj => ?_
    rw [Nat.add_assoc]
    exact hsame _ (by omega)
  refine ⟨Eq.trans (List.map_congr_left fun j hj => hsame j ?_) h.signature, hheader, fun hc =>
    hsize ▸ h.fits hc, fun hc => ?_⟩
  · have := List.mem_range.mp hj
    omega
  · have hfits := h.fits hc
    rw [hsize]
    exact Eq.trans (sumWords_congr _ fun j hj => hsame j (by omega)) (h.sum hc)

/-- What was loaded starts with the signature of an image. -/
theorem signature_of_loaded {o : Ifs2} {m : Mem} (himg : o.Image m) {dst info : ℕ}
    (haway : Away info INFO_SIZE dst o.ifs2_size) :
    check_ifs_signature (saveInfo info dst (memmove dst o.source o.ifs2_size m)) dst = true := by
  have hheader := himg.header
  rw [check_ifs_signature_congr fun j hj => loaded_byte haway (by omega)]
  exact decide_eq_true himg.signature

/-- **What was loaded is found valid**, if the structure is not in the destination. -/
theorem valid_of_loaded {o : Ifs2} {m : Mem} (himg : o.Image m) {dst info : ℕ}
    (haway : Away info INFO_SIZE dst o.ifs2_size) :
    o.valid (saveInfo info dst (memmove dst o.source o.ifs2_size m)) dst info = true := by
  have hheader := himg.header
  have hbyte : ∀ j, j < o.ifs2_size →
      saveInfo info dst (memmove dst o.source o.ifs2_size m) (dst + j) = m (o.source + j) :=
    fun j hj => loaded_byte haway hj
  have hsig := signature_of_loaded himg haway
  have hsize : load 4 (info + INFO_IMAGE_SIZE)
      (saveInfo info dst (memmove dst o.source o.ifs2_size m)) =
      load 4 (o.source + HDR_IMAGE_SIZE) m := by
    rw [load_image_size haway hheader]
    unfold HDR_IMAGE_SIZE
    refine load_eq fun j hj => ?_
    rw [Nat.add_assoc, memmove_inside (by omega), Nat.add_assoc]
  unfold Ifs2.valid
  rw [if_pos ⟨hsig, rifs_checksum_save info dst _⟩]
  split
  · have hfits := himg.fits ‹_›
    rw [hsize]
    refine decide_eq_true
      (Eq.trans (sumWords_congr _ fun j hj => hbyte j (by omega)) (himg.sum ‹_›))
  · rfl

/-! ### Where the structure is -/

/-- The tables are in order, and all RAM is below the limit of the search. -/
structure RamState.Laid (s : RamState) (l al : List (Span ℕ)) : Prop where
  inited : s.inited = true
  ram : s.ram.Rep l
  avoid : s.avoid.Rep al
  limit : ∀ u ∈ l, u.hi ≤ RAM_LIMIT

theorem Linked.laid {s : RamState} {log : List Event} {l al : List (Span ℕ)}
    (h : Linked s log l al) : s.Laid l al :=
  ⟨h.inited, h.ram, h.avoid, h.hi_le⟩

/-- What is taken out of the tables leaves them in order. -/
theorem RamState.Laid.cut {s s' : RamState} {l al : List (Span ℕ)} (hs : s.Laid l al)
    {addr size : ℕ}
    (hw : addr + size < 2 ^ 64) (h : allocAt addr size s = .ok s') :
      s'.Laid (cutAll addr (addr + size) l) al := by
  obtain ⟨hram, havoid, hinited⟩ := allocAt_tables hs.ram hw h
  refine ⟨hinited.trans hs.inited, hram, havoid ▸ hs.avoid, fun u hmem => ?_⟩
  have hp := hram.normal.proper u hmem
  have hin : u.hi - 1 ∈ cover (cutAll addr (addr + size) l) :=
    mem_cover.mpr ⟨u, hmem, ⟨by omega, by omega⟩⟩
  rw [cover_cutAll] at hin
  obtain ⟨v, hv, hlo, hhi⟩ := mem_cover.mp hin.1
  have hv' := hs.limit v hv
  omega

/-- A search finds nothing, and the tables stay; or it finds RAM, and that is taken out. -/
theorem RamState.Laid.found {s s' : RamState} {l al : List (Span ℕ)} (hs : s.Laid l al)
    {size align addr : ℕ} (ha : 0 < align)
    (haw : align < 2 ^ 32) (h : alloc_ram NULL_PADDR size align s = .ok (addr, s')) :
    find_ram s size align 0 0 = .ok addr ∧ (addr = NULL_PADDR ∧ s' = s ∨
      addr ≠ NULL_PADDR ∧ Usable l al addr size ∧ s'.Laid (cutAll addr (addr + size) l) al) := by
  obtain ⟨hfind, h⟩ := alloc_ram_found hs.inited hs.ram hs.avoid hs.limit ha haw h
  exact ⟨hfind, h.imp id fun ⟨hnull, hu, hw, hat⟩ => ⟨hnull, hu, hs.cut hw hat⟩⟩

/-- A secure system clears nothing but what it gives out. -/
theorem alloc_ram_secure {s s' : RamState} {size align addr : ℕ}
    (h : alloc_ram NULL_PADDR size align s = .ok (addr, s')) :
    s'.secure_system = s.secure_system ∧
    (s.secure_system = true → addr ≠ NULL_PADDR → addr % 2 ^ 32 = addr) := by
  unfold alloc_ram at h
  rw [if_pos rfl] at h
  split_ifs at h
  obtain ⟨found, -, h⟩ := bind_eq_ok.mp h
  split_ifs at h with hnull hcut
  · cases h
    exact ⟨rfl, fun _ hne => absurd rfl hne⟩
  · obtain ⟨s₁, hs₁, h⟩ := bind_eq_ok.mp h
    cases h
    exact ⟨allocAt_secure hs₁, fun hsec _ => not_not.mp fun hne => hcut ⟨hsec, hne⟩⟩

/-- **A destination that `alloc_ram` chose does not meet the structure** it gives out next. -/
theorem info_apart {s s₁ s₂ : RamState} {l al : List (Span ℕ)} (hs : s.Laid l al)
    {size align dst info : ℕ} (ha : 0 < align)
    (haw : align < 2 ^ 32) (hdst : alloc_ram NULL_PADDR size align s = .ok (dst, s₁))
    (hfound : dst ≠ NULL_PADDR)
    (hinfo : alloc_ram NULL_PADDR INFO_SIZE 8 s₁ = .ok (info, s₂)) (hfound' : info ≠ NULL_PADDR) :
    Away info INFO_SIZE dst size := by
  obtain ⟨-, ⟨hnull, -⟩ | ⟨-, -, hs₁⟩⟩ := hs.found ha haw hdst
  · exact absurd hnull hfound
  obtain ⟨-, ⟨hnull, -⟩ | ⟨-, hu, -⟩⟩ := hs₁.found (by decide) (by decide) hinfo
  · exact absurd hnull hfound'
  -- a byte of both would be free after it was given out
  unfold Away
  by_contra hmeet
  push Not at hmeet
  obtain ⟨h₁, h₂, h₃, h₄⟩ := hmeet
  have hin : max info dst ∈ Set.Ico info (info + INFO_SIZE) := ⟨by omega, by omega⟩
  have hout := hu.cover hin
  rw [cover_cutAll] at hout
  exact hout.2 ⟨by omega, by omega⟩

/-! ### Two boots -/

theorem allocate_ok {size align addr : ℕ} {m m' : Mem} {s s' : RamState}
    (h : allocate size align m s = .ok (addr, m', s')) :
    alloc_ram NULL_PADDR size align s = .ok (addr, s') ∧
    m' = clearFound s.secure_system addr size m := by
  obtain ⟨r, hr, h⟩ := bind_eq_ok.mp h
  cases h
  exact ⟨hr, rfl⟩

/-- The same RAM is found whatever is in memory. -/
theorem allocate_eq {size align addr : ℕ} {s s' : RamState}
    (h : alloc_ram NULL_PADDR size align s = .ok (addr, s')) (m : Mem) :
    allocate size align m s = .ok (addr, clearFound s.secure_system addr size m, s') := by
  rw [allocate, h]
  rfl

/-- Where the destination is, and what is cleared in memory: nothing, if the user chose it. -/
def Ifs2.clearDestination (o : Ifs2) (secure_system : Bool) (dst : ℕ) (m : Mem) : Mem :=
  match o.dst with
  | some _ => m
  | none => clearFound secure_system dst o.ifs2_size m

/-- The tables of a search for the destination, if there is one. -/
def Ifs2.Placed (o : Ifs2) (s : RamState) (dst : ℕ) (s₁ : RamState) : Prop :=
  match o.dst with
  | some d => dst = d ∧ s₁ = s
  | none => alloc_ram NULL_PADDR o.ifs2_size 0x1000 s = .ok (dst, s₁)

theorem destination_ok {o : Ifs2} {m m₁ : Mem} {s s₁ : RamState} {dst : ℕ}
    (h : o.destination m s = .ok (dst, m₁, s₁)) :
    o.Placed s dst s₁ ∧ m₁ = o.clearDestination s.secure_system dst m := by
  unfold Ifs2.destination at h
  unfold Ifs2.Placed Ifs2.clearDestination
  split at h
  · cases h
    simp
  · simpa using allocate_ok h

theorem Ifs2.Placed.secure {o : Ifs2} {s s₁ : RamState} {dst : ℕ} (h : o.Placed s dst s₁) :
    s₁.secure_system = s.secure_system := by
  unfold Ifs2.Placed at h
  split at h
  · rw [h.2]
  · exact (alloc_ram_secure h).1

/-- The tables say where the destination is. -/
theorem Ifs2.Placed.unique {o : Ifs2} {s s₁ s₁' : RamState} {dst dst' : ℕ} (h : o.Placed s dst s₁)
    (h' : o.Placed s dst' s₁') :
    dst' = dst ∧ s₁' = s₁ := by
  unfold Ifs2.Placed at h h'
  split at h
  · rename_i hd
    simp only [hd] at h'
    exact ⟨h'.1.trans h.1.symm, h'.2.trans h.2.symm⟩
  · rename_i hd
    simp only [hd] at h'
    cases h.symm.trans h'
    exact ⟨rfl, rfl⟩

/-- What is in memory when `rifs_restore_ifs2` looks at it. -/
def Ifs2.lookedAt (o : Ifs2) (secure_system : Bool) (dst info : ℕ) (m : Mem) : Mem :=
  clearFound secure_system info INFO_SIZE (o.clearDestination secure_system dst m)

/-- **One boot**: where the image and the structure are, whatever is in memory; and what is in
memory after it. -/
theorem load_ifs2_cases {o : Ifs2} (hr : o.restore = true) {m : Mem} {s : RamState} {b : Ifs2Boot}
    (h : load_ifs2_nonbootable o m s = .ok b) : ∃ s₁ s₂ info, o.Placed s b.dst s₁ ∧
      alloc_ram NULL_PADDR INFO_SIZE 8 s₁ = .ok (info, s₂) ∧ b.info = some info ∧
      b.restored = o.valid (o.lookedAt s.secure_system b.dst info m) b.dst info ∧
      (b.restored = true → b.mem = o.lookedAt s.secure_system b.dst info m) ∧
      (b.restored = false → b.mem =
        saveInfo info b.dst
          (memmove b.dst o.source o.ifs2_size (o.lookedAt s.secure_system b.dst info m))) := by
  obtain ⟨⟨dst, m₁, s₁⟩, hdst, h⟩ := bind_eq_ok.mp h
  obtain ⟨hplaced, rfl⟩ := destination_ok hdst
  rw [if_pos hr] at h
  obtain ⟨q, hq, h⟩ := bind_eq_ok.mp h
  obtain ⟨⟨info, m₂, s₂⟩, hinfo, hq⟩ := bind_eq_ok.mp hq
  obtain ⟨halloc, rfl⟩ := allocate_ok hinfo
  cases hq
  rw [hplaced.secure] at h
  dsimp only at h
  split at h
  case isTrue hvalid =>
    cases h
    exact ⟨s₁, s₂, info, hplaced, halloc, rfl, hvalid.symm, fun _ => rfl, fun hno => nomatch hno⟩
  case isFalse hvalid =>
    obtain ⟨l, hl, h⟩ := bind_eq_ok.mp h
    obtain ⟨s₃, -, hl⟩ := bind_eq_ok.mp hl
    cases hl
    cases h
    exact ⟨s₁, s₂, info, hplaced, halloc, rfl, (Bool.eq_false_iff.mpr hvalid).symm,
      fun hno => Bool.noConfusion (hno : false = true), fun _ => rfl⟩

/-- A boot that finds the image valid leaves it. -/
theorem load_ifs2_valid {o : Ifs2} (hr : o.restore = true) {m : Mem} {s s₁ s₂ : RamState}
    {dst info : ℕ}
    (hplaced : o.Placed s dst s₁) (hinfo : alloc_ram NULL_PADDR INFO_SIZE 8 s₁ = .ok (info, s₂))
    (hvalid : o.valid (o.lookedAt s.secure_system dst info m) dst info = true) :
    load_ifs2_nonbootable o m s =
      .ok ⟨o.lookedAt s.secure_system dst info m, dst, some info, true, s₂⟩ := by
  have hdst : o.destination m s = .ok (dst, o.clearDestination s.secure_system dst m, s₁) := by
    unfold Ifs2.Placed at hplaced
    unfold Ifs2.destination Ifs2.clearDestination
    split at hplaced
    · simp [hplaced]
    · simp [allocate_eq hplaced]
  have hq := allocate_eq hinfo (o.clearDestination s.secure_system dst m)
  rw [hplaced.secure] at hq
  unfold Ifs2.lookedAt at hvalid ⊢
  unfold load_ifs2_nonbootable rifs_restore_ifs2
  simp only [hdst, hq, hr, bind, Except.bind, if_true, pure, Except.pure, hvalid]

theorem clearFound_false (found size : ℕ) (m : Mem) : clearFound false found size m = m :=
  if_neg (by simp)

theorem clearFound_true {found size : ℕ} (hnull : found ≠ NULL_PADDR)
    (hcut : found % 2 ^ 32 = found) (m : Mem) :
    clearFound true found size m = memset found size 0 m := by
  rw [clearFound, if_pos ⟨rfl, hnull⟩, hcut]

/-- The structure carries the signature. -/
def Signed (m : Mem) (info : ℕ) : Prop := bytes m info 8 = RIFS_SIGNATURE

/-- The second boot finds what the first one loaded: the structure and the destination have no byte
in common, the image is found in RAM, and it is as the first boot left it. -/
def FoundAgain (o : Ifs2) (s : RamState) (b : Ifs2Boot) (info : ℕ) : Prop :=
  Away info INFO_SIZE b.dst o.ifs2_size ∧ ∃ b', load_ifs2_nonbootable o b.mem s = .ok b' ∧
    b'.restored = true ∧
    b'.dst = b.dst ∧ bytes b'.mem b.dst o.ifs2_size = bytes b.mem b.dst o.ifs2_size

/-- The words of the structure do not add up to 0, or there is no image, or its words are to be
checked and do not. -/
def Rejected (o : Ifs2) (dst info : ℕ) (m : Mem) : Prop :=
  rifs_checksum m info INFO_SIZE ≠ 0 ∨ check_ifs_signature m dst = false ∨
    o.cksum = true ∧ rifs_checksum m dst (load 4 (info + INFO_IMAGE_SIZE) m) ≠ 0

/-- What `rifs_restore_ifs2` looks at. -/
theorem valid_eq_false_iff {o : Ifs2} {m : Mem} {dst info : ℕ} :
    o.valid m dst info = false ↔ Rejected o dst info m := by
  unfold Rejected
  unfold Ifs2.valid
  split
  · rename_i h
    split
    · simp_all
    · simp_all
  · rename_i h
    rw [not_and_or, Bool.not_eq_true] at h
    exact ⟨fun _ => h.elim (fun h => .inr (.inl h)) .inl, fun _ => rfl⟩

/-- The structure is not in the destination, if it is not in one that the user chose. -/
theorem away_of_destination {o : Ifs2} {s s₁ s₂ : RamState} {l al : List (Span ℕ)}
    (hs : s.Laid l al) {dst info : ℕ}
    (hplaced : o.Placed s dst s₁) (hinfo : alloc_ram NULL_PADDR INFO_SIZE 8 s₁ = .ok (info, s₂))
    (hfound : info ≠ NULL_PADDR) (hfound' : o.dst = none → dst ≠ NULL_PADDR)
    (huser : ∀ d p, o.dst = some d → find_ram s INFO_SIZE 8 0 0 = .ok p →
    Away p INFO_SIZE d o.ifs2_size) :
    Away info INFO_SIZE dst o.ifs2_size := by
  unfold Ifs2.Placed at hplaced
  split at hplaced
  · rename_i d hd
    obtain ⟨rfl, rfl⟩ := hplaced
    exact huser _ _ hd (hs.found (by decide) (by decide) hinfo).1
  · exact info_apart hs (by decide) (by decide) hplaced (hfound' ‹_›) hinfo hfound

/-- What is found is free RAM. -/
theorem RamState.Laid.found_free {s s' : RamState} {l al : List (Span ℕ)} (hs : s.Laid l al)
    {size align addr : ℕ}
    (ha : 0 < align) (haw : align < 2 ^ 32)
    (h : alloc_ram NULL_PADDR size align s = .ok (addr, s')) :
    (addr ≠ NULL_PADDR → Set.Ico addr (addr + size) ⊆ s.ram.bytes) ∧ s'.ram.bytes ⊆ s.ram.bytes ∧
    ∃ l', s'.Laid l' al := by
  obtain ⟨-, ⟨hnull, rfl⟩ | ⟨-, hu, hs'⟩⟩ := hs.found ha haw h
  · exact ⟨fun hne => absurd hnull hne, subset_rfl, l, hs⟩
  · refine ⟨fun _ => hs.ram.bytes ▸ hu.cover, ?_, _, hs'⟩
    rw [hs'.ram.bytes, cover_cutAll, hs.ram.bytes]
    exact Set.sdiff_subset

/-- Memory that is not free is not cleared. -/
theorem clearFound_outside {s s' : RamState} {l al : List (Span ℕ)} (hs : s.Laid l al)
    {size align addr x : ℕ}
    (ha : 0 < align) (haw : align < 2 ^ 32) (h : alloc_ram NULL_PADDR size align s = .ok (addr, s'))
    (hx : s.secure_system = true → x ∉ s.ram.bytes) (m : Mem) :
      clearFound s.secure_system addr size m x = m x := by
  rw [clearFound]
  split_ifs with hsec
  · rw [(alloc_ram_secure h).2 hsec.1 hsec.2]
    refine memset_outside ?_
    by_contra hin
    exact hx hsec.1 ((hs.found_free ha haw h).1 hsec.2 ⟨by omega, by omega⟩)
  · rfl

/-- The source is copied as it was before, if it is not in free RAM where that is cleared. -/
theorem lookedAt_source {o : Ifs2} {s s₁ s₂ : RamState} {l al : List (Span ℕ)} (hs : s.Laid l al)
    {dst info : ℕ}
    (hplaced : o.Placed s dst s₁)
    (hinfo : alloc_ram NULL_PADDR INFO_SIZE 8 s₁ = .ok (info, s₂)) {x : ℕ}
    (hx : s.secure_system = true → x ∉ s.ram.bytes) (m : Mem) :
      o.lookedAt s.secure_system dst info m x = m x := by
  have hsec := hplaced.secure
  unfold Ifs2.Placed at hplaced
  unfold Ifs2.lookedAt Ifs2.clearDestination
  split at hplaced
  · obtain ⟨rfl, rfl⟩ := hplaced
    exact clearFound_outside hs (by decide) (by decide) hinfo hx m
  · obtain ⟨-, hsub, l₁, hs₁⟩ := hs.found_free (by decide) (by decide) hplaced
    rw [← hsec, clearFound_outside hs₁ (by decide) (by decide) hinfo
      (fun h hin => hx (hsec ▸ h) (hsub hin)), hsec]
    exact clearFound_outside hs (by decide) (by decide) hplaced hx m

/-- A structure that was cleared adds up, and says that the image has no words. -/
theorem valid_of_cleared {o : Ifs2} {m : Mem} {dst info : ℕ}
    (hsig : check_ifs_signature m dst = true)
    (hzero : ∀ j < INFO_SIZE, m (info + j) = 0) : o.valid m dst info = true := by
  have hload : ∀ k, k + 4 ≤ INFO_SIZE → load 4 (info + k) m = 0 := by
    intro k hk
    rw [show load 4 (info + k) m = load 4 0 fun _ =>
      0 from load_eq fun j hj => by rw [Nat.add_assoc, hzero _ (by omega)]]
    rfl
  have hsum : rifs_checksum m info INFO_SIZE = 0 := by
    change sumWords m 4 info = 0
    have h₀ := hload 0 (by decide)
    have h₁ := hload 4 (by decide)
    have h₂ := hload 8 (by decide)
    have h₃ := hload 12 (by decide)
    rw [Nat.add_zero] at h₀
    simp only [sumWords, Nat.add_assoc, Nat.reduceAdd, h₀, h₁, h₂, h₃]
    decide
  unfold Ifs2.valid
  rw [if_pos ⟨hsig, hsum⟩, hload INFO_IMAGE_SIZE (by decide)]
  split
  · rfl
  · rfl

/-- A destination that was cleared has no image. -/
theorem valid_cleared_destination {o : Ifs2} {m : Mem} {dst info : ℕ} (h : m dst = 0) :
    o.valid m dst info = false := by
  have hsig : check_ifs_signature m dst = false := by
    refine decide_eq_false fun heq => ?_
    have hbyte := congrArg List.head? heq
    rw [show (bytes m dst 7).head? = some (m dst) from rfl, h] at hbyte
    exact absurd hbyte (by decide)
  unfold Ifs2.valid
  rw [if_neg (by simp [hsig])]

/-- On a system that is not secure nothing is cleared. -/
theorem lookedAt_unsecured (o : Ifs2) (dst info : ℕ) (m : Mem) :
    o.lookedAt false dst info m = m := by
  unfold Ifs2.lookedAt Ifs2.clearDestination
  rw [clearFound_false]
  split
  · rfl
  · exact clearFound_false _ _ m

section

variable {o : Ifs2} {dst info : ℕ} (hfound : info ≠ NULL_PADDR) (hcut : info % 2 ^ 32 = info)

include hfound hcut

/-- With a destination that the user chose, only the structure is cleared. -/
theorem lookedAt_user {d : ℕ} (hd : o.dst = some d) (m : Mem) :
    o.lookedAt true dst info m = memset info INFO_SIZE 0 m := by
  unfold Ifs2.lookedAt Ifs2.clearDestination
  simp only [hd]
  exact clearFound_true hfound hcut m

/-- A destination that was searched for is cleared before it is looked at. -/
theorem lookedAt_chosen (hnone : o.dst = none) (hsize : 0 < o.ifs2_size)
    (hfound' : dst ≠ NULL_PADDR) (hcut' : dst % 2 ^ 32 = dst) (m : Mem) :
    o.lookedAt true dst info m dst = 0 := by
  simp only [Ifs2.lookedAt, Ifs2.clearDestination, hnone]
  rw [clearFound_true hfound hcut, clearFound_true hfound' hcut']
  unfold memset
  split_ifs with h₁ h₂
  · rfl
  · rfl
  · exact absurd ⟨le_rfl, by omega⟩ h₂

end

/-- The second boot leaves a destination that it finds valid, if it does not clear it. -/
theorem foundAgain_of_valid {o : Ifs2} (hr : o.restore = true) {s s₁ s₂ : RamState} {b : Ifs2Boot}
    {info : ℕ} (hplaced : o.Placed s b.dst s₁)
    (halloc : alloc_ram NULL_PADDR INFO_SIZE 8 s₁ = .ok (info, s₂))
    (haway : Away info INFO_SIZE b.dst o.ifs2_size)
    (hvalid : o.valid (o.lookedAt s.secure_system b.dst info b.mem) b.dst info = true)
    (hsame : ∀ j < o.ifs2_size,
      o.lookedAt s.secure_system b.dst info b.mem (b.dst + j) = b.mem (b.dst + j)) :
    FoundAgain o s b info :=
  ⟨haway, _, load_ifs2_valid hr hplaced halloc hvalid, rfl, rfl,
    List.map_congr_left fun j hj => hsame j (List.mem_range.mp hj)⟩

/-- The second boot finds what the first one loaded exactly if the user chose the destination or the
system is not secure, and the search for the structure does not stop in a destination that the user
chose. -/
theorem foundAgain_iff {o : Ifs2} (hr : o.restore = true) {m : Mem} {s : RamState}
    {l al : List (Span ℕ)} (hs : s.Laid l al) (himg : o.Image m)
    (hsrc : s.secure_system = true →
    Disjoint (Set.Ico o.source (o.source + o.ifs2_size)) s.ram.bytes) {b : Ifs2Boot}
    (hb : load_ifs2_nonbootable o m s = .ok b) (hload : b.restored = false) {info : ℕ}
    (hinfo : b.info = some info) (hfound : info ≠ NULL_PADDR)
    (hfound' : o.dst = none → b.dst ≠ NULL_PADDR) :
    FoundAgain o s b info ↔ (s.secure_system = true → o.dst ≠ none) ∧
      ∀ d p, o.dst = some d → find_ram s INFO_SIZE 8 0 0 = .ok p →
        Away p INFO_SIZE d o.ifs2_size := by
  obtain ⟨s₁, s₂, info', hplaced, halloc, hsome, -, -, hmem⟩ := load_ifs2_cases hr hb
  obtain rfl : info' = info := Option.some.inj (hsome.symm.trans hinfo)
  have himg' : o.Image (o.lookedAt s.secure_system b.dst info' m) := by
    refine himg.congr fun j hj => lookedAt_source hs hplaced halloc (fun hsec hin => ?_) m
    exact Set.disjoint_left.mp (hsrc hsec) ⟨Nat.le_add_right _ _, Nat.add_lt_add_left hj _⟩ hin
  have hcut := (alloc_ram_secure halloc).2
  rw [hplaced.secure] at hcut
  have hheader := himg.header
  refine ⟨fun hkept => ⟨fun hsec hnone => ?_, fun d p hd hp => ?_⟩, fun ⟨hsec, huser⟩ => ?_⟩
  · -- the second boot clears the destination before it looks
    obtain ⟨-, b', hb', hrestored, hdst', -⟩ := hkept
    obtain ⟨s₁', s₂', info₂, hplaced', halloc', -, hvalid, -, -⟩ := load_ifs2_cases hr hb'
    obtain ⟨-, rfl⟩ := hplaced.unique hplaced'
    cases halloc.symm.trans halloc'
    have hsearch : alloc_ram NULL_PADDR o.ifs2_size 0x1000 s = .ok (b.dst, s₁') := by
      simpa only [Ifs2.Placed, hnone] using hplaced
    have hcut' := (alloc_ram_secure hsearch).2 hsec (hfound' hnone)
    have hzero := lookedAt_chosen hfound (hcut hsec hfound) hnone (by omega) (hfound' hnone) hcut'
    rw [hdst', hsec, valid_cleared_destination (hzero b.mem), hrestored] at hvalid
    cases hvalid
  · have huser : b.dst = d ∧ s₁ = s := by simpa only [Ifs2.Placed, hd] using hplaced
    obtain ⟨hd', rfl⟩ := huser
    cases hp.symm.trans (hs.found (by decide) (by decide) halloc).1
    exact hd' ▸ hkept.1
  · have haway := away_of_destination hs hplaced halloc hfound hfound' huser
    cases hsecure : s.secure_system with
    | false =>
      have hsame := lookedAt_unsecured o b.dst info'
      rw [← hsecure] at hsame
      refine foundAgain_of_valid hr hplaced halloc haway ?_ fun j _ => by rw [hsame]
      rw [hsame, hmem hload]
      exact valid_of_loaded himg' haway
    | true =>
      obtain ⟨d, hd⟩ := Option.ne_none_iff_exists'.mp (hsec hsecure)
      have hclear := @lookedAt_user o b.dst info' hfound (hcut hsecure hfound) d hd
      rw [← hsecure] at hclear
      have hbyte : ∀ j < o.ifs2_size, o.lookedAt s.secure_system b.dst info' b.mem (b.dst + j) =
          b.mem (b.dst + j) := by
        intro j hj
        rw [hclear]
        unfold Away at haway
        exact memset_outside (by omega)
      refine foundAgain_of_valid hr hplaced halloc haway ?_ hbyte
      refine valid_of_cleared ?_ fun j hj => ?_
      · rw [check_ifs_signature_congr fun j hj => hbyte j (by omega), hmem hload]
        exact signature_of_loaded himg' haway
      · rw [hclear]
        exact memset_inside (by omega)

/-- A destination that the user chose is not where a search for the structure can end up: in the
entries up to the first one with room for it, however the ranges to avoid cut that, the next
multiple of 8 from each start has the structure off the destination, unless it has no free RAM for
it. -/
def Ifs2.OffStarts (o : Ifs2) (s : RamState) (al : List (Span ℕ)) : Prop :=
  ∀ d, o.dst = some d → ∀ r, s.ram.Listed r →
    (∀ j < r, (s.ram.slots j).size < roomNeeded (INFO_SIZE + 7) al) →
    ∀ lo, Starts s r lo → Clear s (round 64 lo 8) INFO_SIZE →
      Away (round 64 lo 8) INFO_SIZE d o.ifs2_size

/-- The search for the structure does not stop in the destination. -/
theorem Ifs2.OffStarts.away {o : Ifs2} {s : RamState} {l al : List (Span ℕ)}
    (h : o.OffStarts s al) (hs : s.Laid l al) {d p : ℕ} (hd : o.dst = some d)
    (hp : find_ram s INFO_SIZE 8 0 0 = .ok p) (hnull : p ≠ NULL_PADDR) :
    Away p INFO_SIZE d o.ifs2_size := by
  obtain ⟨r, lo, hr, hstarts, rfl, hclear, hfirst⟩ :=
    find_ram_first (k := 3) hs.ram hs.avoid (by decide) (by decide) hp hnull
  refine h d hd r hr hfirst lo hstarts (hclear ?_)
  have hmem := starts_mem ⟨l, hs.ram⟩ hr hstarts
  rw [hs.ram.bytes] at hmem
  obtain ⟨u, hu, -, hhi⟩ := mem_cover.mp hmem
  have hlim := hs.limit u hu
  unfold RAM_LIMIT at hlim
  omega

/-! ### What stays in `ram_list` -/

/-- The size is an `unsigned`, and a destination is a word of 32 bits without its lowest 12, as the
options have it. -/
structure Ifs2.Parsed (o : Ifs2) : Prop where
  size : o.ifs2_size < 2 ^ 32
  dst : ∀ d, o.dst = some d → ∃ x, d = 0xfffff000 &&& x

theorem Ifs2.Parsed.end_lt {o : Ifs2} (ho : o.Parsed) {d : ℕ} (hd : o.dst = some d) :
    d + o.ifs2_size < 2 ^ 64 := by
  obtain ⟨x, rfl⟩ := ho.dst d hd
  have hsize := ho.size
  have hle : 0xfffff000 &&& x ≤ 0xfffff000 := Nat.and_le_left
  omega

/-- The image is found where the user wants it, the structure having been cleared on a secure
system, and RAM that is free is in it, but for what the structure takes. -/
def Ifs2.Overlooked (o : Ifs2) (m : Mem) (s : RamState) : Prop :=
  o.restore = true ∧ ∃ d info, o.dst = some d ∧ find_ram s INFO_SIZE 8 0 0 = .ok info ∧
    o.valid (clearFound s.secure_system info INFO_SIZE m) d info = true ∧
    ∃ x, (d ≤ x ∧ x < d + o.ifs2_size) ∧ x ∈ s.ram.bytes ∧
      ¬ (info ≠ NULL_PADDR ∧ info ≤ x ∧ x < info + INFO_SIZE)

/-- No byte of the range is in `ram_list`. -/
def Reserved (s : RamState) (addr size : ℕ) : Prop :=
  ∀ x, addr ≤ x → x < addr + size → x ∉ s.ram.bytes

theorem reserved_of_cut {s : RamState} {l al : List (Span ℕ)} {addr size : ℕ}
    (h : s.Laid (cutAll addr (addr + size) l) al) : Reserved s addr size := by
  intro x hlo hhi hin
  rw [h.ram.bytes, cover_cutAll] at hin
  exact hin.2 ⟨hlo, hhi⟩

/-- Nothing is free at the null address or behind it. -/
theorem reserved_null {s : RamState} {l al : List (Span ℕ)} (h : s.Laid l al) (size : ℕ) :
    Reserved s NULL_PADDR size := by
  intro x hlo _ hin
  rw [h.ram.bytes] at hin
  obtain ⟨u, hu, -, hhi⟩ := mem_cover.mp hin
  have hb := h.ram.bound u hu
  unfold NULL_PADDR at hlo
  omega

/-- The search for the structure puts nothing into `ram_list`. -/
theorem info_bytes {s s' : RamState} {l al : List (Span ℕ)} (hs : s.Laid l al) {info : ℕ}
    (h : alloc_ram NULL_PADDR INFO_SIZE 8 s = .ok (info, s')) :
    find_ram s INFO_SIZE 8 0 0 = .ok info ∧ (∃ l', s'.Laid l' al) ∧
      ∀ x, x ∈ s'.ram.bytes ↔ x ∈ s.ram.bytes ∧
      ¬ (info ≠ NULL_PADDR ∧ info ≤ x ∧ x < info + INFO_SIZE) := by
  obtain ⟨hfind, ⟨hnull, rfl⟩ | ⟨hne, -, hs'⟩⟩ := hs.found (by decide) (by decide) h
  · exact ⟨hfind, ⟨l, hs⟩, fun x => by simp [hnull]⟩
  · refine ⟨hfind, ⟨_, hs'⟩, fun x => ?_⟩
    rw [hs'.ram.bytes, cover_cutAll, ← hs.ram.bytes]
    simp [hne]

/-- A load reserves a destination that the user chose. -/
theorem reserve_spec {o : Ifs2} (ho : o.Parsed) {s s' : RamState} {l al : List (Span ℕ)}
    (hs : s.Laid l al) (h : o.reserve s = .ok s') :
    (∀ d, o.dst = some d → Reserved s' d o.ifs2_size) ∧ (o.dst = none → s' = s) := by
  unfold Ifs2.reserve at h
  split at h
  case h_1 d hd =>
    have hend := ho.end_lt hd
    cases halloc : alloc_ram d o.ifs2_size 0x1000 s with
    | error =>
      rw [halloc] at h
      cases h
    | ok r =>
      rw [halloc] at h
      cases h
      have hne : d ≠ NULL_PADDR := fun he => by
        obtain ⟨x, hx⟩ := ho.dst d hd
        have hle : 0xfffff000 &&& x ≤ 0xfffff000 := Nat.and_le_left
        rw [← hx, he] at hle
        exact absurd hle (by decide)
      simp only [alloc_ram, hs.inited, not_true, if_false, if_neg hne] at halloc
      obtain ⟨s', hs', halloc⟩ := bind_eq_ok.mp halloc
      cases halloc
      refine ⟨fun d' hd' => ?_, fun hno => absurd hno (by simp [hd])⟩
      obtain rfl : d = d' := Option.some.inj (hd.symm.trans hd')
      exact reserved_of_cut (hs.cut hend hs')
  case h_2 hd =>
    cases h
    exact ⟨fun d hd' => absurd hd' (by simp [hd]), fun _ => rfl⟩

/-- Where the image is to be: where the user wants it, or in RAM that is then reserved. -/
theorem destination_spec {o : Ifs2} {m m₁ : Mem} {s s₁ : RamState} {l al : List (Span ℕ)}
    (hs : s.Laid l al) {dst : ℕ} (h : o.destination m s = .ok (dst, m₁, s₁)) :
    o.dst = some dst ∧ m₁ = m ∧ s₁ = s ∨ o.dst = none ∧ Reserved s₁ dst o.ifs2_size ∧
    ∃ l₁, s₁.Laid l₁ al := by
  unfold Ifs2.destination at h
  split at h
  case h_1 d hd =>
    cases h
    exact .inl ⟨hd, rfl, rfl⟩
  case h_2 hd =>
    refine .inr ⟨hd, ?_⟩
    obtain ⟨-, ⟨rfl, rfl⟩ | ⟨-, -, hs₁⟩⟩ := hs.found (by decide) (by decide) (allocate_ok h).1
    · exact ⟨reserved_null hs _, l, hs⟩
    · exact ⟨reserved_of_cut hs₁, _, hs₁⟩

/-- The tables after a boot that is not to restore, after one that finds the image, and after one
that does not. -/
theorem load_ifs2_tables {o : Ifs2} {m : Mem} {s : RamState} {b : Ifs2Boot}
    (h : load_ifs2_nonbootable o m s = .ok b) :
    ∃ m₁ s₁, o.destination m s = .ok (b.dst, m₁, s₁) ∧
      (o.restore = false ∧ o.reserve s₁ = .ok b.tables ∨
        o.restore = true ∧ ∃ info s₂, alloc_ram NULL_PADDR INFO_SIZE 8 s₁ = .ok (info, s₂) ∧
          (o.valid (clearFound s₁.secure_system info INFO_SIZE m₁) b.dst info = true ∧
            b.tables = s₂ ∨
            o.valid (clearFound s₁.secure_system info INFO_SIZE m₁) b.dst info = false ∧
            o.reserve s₂ = .ok b.tables)) := by
  obtain ⟨⟨dst, m₁, s₁⟩, hdst, h⟩ := bind_eq_ok.mp h
  refine ⟨m₁, s₁, ?_⟩
  cases hr : o.restore with
  | false =>
    simp only [hr, Bool.false_eq_true, if_false] at h
    obtain ⟨r, hl, h⟩ := bind_eq_ok.mp h
    obtain ⟨s₃, hres, hl⟩ := bind_eq_ok.mp hl
    cases hl
    cases h
    exact ⟨hdst, .inl ⟨rfl, hres⟩⟩
  | true =>
    simp only [hr, if_true] at h
    obtain ⟨q, hq, h⟩ := bind_eq_ok.mp h
    obtain ⟨⟨info, m₂, s₂⟩, hinfo, hq⟩ := bind_eq_ok.mp hq
    obtain ⟨halloc, rfl⟩ := allocate_ok hinfo
    cases hq
    dsimp only at h
    split at h
    case isTrue hv =>
      cases h
      exact ⟨hdst, .inr ⟨rfl, info, s₂, halloc, .inl ⟨hv, rfl⟩⟩⟩
    case isFalse hv =>
      obtain ⟨r, hl, h⟩ := bind_eq_ok.mp h
      obtain ⟨s₃, hres, hl⟩ := bind_eq_ok.mp hl
      cases hl
      cases h
      exact ⟨hdst, .inr ⟨rfl, info, s₂, halloc, .inr ⟨Bool.eq_false_iff.mpr hv, hres⟩⟩⟩

/-- **What `load_ifs2_nonbootable` reserves.**  After it, no byte of the destination is in
`ram_list`, unless the image was found where the user wants it. -/
theorem load_ifs2_reserved_iff {o : Ifs2} (ho : o.Parsed) {m : Mem} {s : RamState}
    {l al : List (Span ℕ)} (hs : s.Laid l al)
    {b : Ifs2Boot} (hb : load_ifs2_nonbootable o m s = .ok b) :
    Reserved b.tables b.dst o.ifs2_size ↔ ¬ o.Overlooked m s := by
  obtain ⟨m₁, s₁, hdst, hrun⟩ := load_ifs2_tables hb
  rcases destination_spec hs hdst with ⟨huser, rfl, rfl⟩ | ⟨hnone, hres, l₁, hs₁⟩
  · rcases hrun with ⟨hr, hload⟩ | ⟨hr, info, s₂, hinfo, hrest⟩
    · refine iff_of_true ((reserve_spec ho hs hload).1 _ huser) fun hover => ?_
      exact Bool.noConfusion (hr.symm.trans hover.1)
    · obtain ⟨hfind, ⟨l₂, hs₂⟩, hbytes⟩ := info_bytes hs hinfo
      rcases hrest with ⟨hvalid, htables⟩ | ⟨hvalid, hload⟩
      · -- The image is found, and its destination is left as it is.
        rw [htables]
        constructor
        · rintro hreserved ⟨-, d, info', hd, hfind', -, x, ⟨hlo, hhi⟩, hx⟩
          cases hd.symm.trans huser
          cases hfind.symm.trans hfind'
          exact hreserved x hlo hhi ((hbytes x).mpr hx)
        · intro hover x hlo hhi hx
          exact hover ⟨hr, b.dst, info, huser, hfind, hvalid, x, ⟨hlo, hhi⟩, (hbytes x).mp hx⟩
      · refine iff_of_true ((reserve_spec ho hs₂ hload).1 _ huser) ?_
        rintro ⟨-, d, info', hd, hfind', hvalid', -⟩
        cases hd.symm.trans huser
        cases hfind.symm.trans hfind'
        exact Bool.noConfusion (hvalid.symm.trans hvalid')
  · refine iff_of_true ?_ fun ⟨_, d, _, hd, _⟩ => nomatch hnone.symm.trans hd
    rcases hrun with ⟨-, hload⟩ | ⟨-, info, s₂, hinfo, hrest⟩
    · rwa [(reserve_spec ho hs₁ hload).2 hnone]
    · obtain ⟨-, ⟨l₂, hs₂⟩, hbytes⟩ := info_bytes hs₁ hinfo
      have hres₂ : Reserved s₂ b.dst o.ifs2_size :=
        fun x hlo hhi hx => hres x hlo hhi ((hbytes x).mp hx).1
      rcases hrest with ⟨-, htables⟩ | ⟨-, hload⟩
      · rwa [htables]
      · rwa [(reserve_spec ho hs₂ hload).2 hnone]

/-! ### One bank -/

/-- One bank of RAM, and the startup program to be avoided. -/
def bank : RamState where
  inited := true
  ram := ⟨fun r => if r = 0 then ⟨0x40000000, 0x100000⟩ else ⟨0, 0⟩, 2 * ENTRY_SIZE⟩
  avoid := ⟨fun r => if r = 0 then ⟨0x80000, 0xa0000⟩ else ⟨0, 0⟩, 2 * ENTRY_SIZE⟩
  ws_early_next := 0x81000
  temp_syspage := NULL_PADDR
  sysram_added := false
  asinfo := ⟨[], 8⟩

theorem bank_laid : bank.Laid [⟨0x40000000, 0x40100000⟩] [⟨0x80000, 0xa0000⟩] := by
  refine ⟨rfl, ⟨⟨⟨0, 0⟩, rfl, ?_⟩, rfl, by decide, normal_singleton (by simp), by simp⟩,
    ⟨⟨⟨0, 0⟩, rfl, ?_⟩, rfl, by decide, by simp, by simp⟩, by simp [RAM_LIMIT]⟩
  · rw [List.map_singleton, List.singleton_append, holds_cons, holds_cons]
    exact ⟨rfl, rfl, Holds.nil _ _⟩
  · rw [List.map_singleton, List.singleton_append, holds_cons, holds_cons]
    exact ⟨rfl, rfl, Holds.nil _ _⟩

/-- An image of four words at `a`, and zeros elsewhere. -/
def imageAt (a : ℕ) : Mem :=
  write a (IMAGE_SIGNATURE ++ [0] ++ leBytes 4 16 ++ leBytes 4 0x982b2c22) fun _ => 0

/-- Four words from `0x1000`, checked. -/
def fourWords (dst : Option ℕ) : Ifs2 := ⟨16, some 0x1000, dst, true, true, 0⟩

/-- The bank of a secure system. -/
def secureBank : RamState := { bank with secure_system := true }

theorem secureBank_laid : secureBank.Laid [⟨0x40000000, 0x40100000⟩] [⟨0x80000, 0xa0000⟩] :=
  ⟨bank_laid.inited, bank_laid.ram, bank_laid.avoid, bank_laid.limit⟩

theorem fourWords_parsed {dst : Option ℕ} (h : ∀ d, dst = some d → ∃ x, d = 0xfffff000 &&& x) :
    (fourWords dst).Parsed :=
  ⟨show 16 < 2 ^ 32 by decide, h⟩

/-- An image that is loaded into free RAM is reserved there. -/
theorem load_reserved_in_bank :
    ∃ b, load_ifs2_nonbootable (fourWords (some 0x40001000)) (imageAt 0x1000) bank = .ok b ∧
      Reserved b.tables b.dst (fourWords (some 0x40001000)).ifs2_size := by
  have hrun : (load_ifs2_nonbootable (fourWords (some 0x40001000)) (imageAt 0x1000)
      bank).toOption.isSome := by
    decide +kernel
  obtain ⟨b, hb⟩ := Option.isSome_iff_exists.mp hrun
  replace hb := toOption_eq_some.mp hb
  have hfind : find_ram bank INFO_SIZE 8 0 0 = .ok 0x40000000 := by decide +kernel
  have hvalid : (fourWords (some 0x40001000)).valid
      (clearFound bank.secure_system 0x40000000 INFO_SIZE (imageAt 0x1000)) 0x40001000
      0x40000000 = false := by
    decide +kernel
  refine ⟨b, hb, (load_ifs2_reserved_iff (fourWords_parsed fun d hd => ⟨d, by cases hd; rfl⟩)
    bank_laid hb).mpr ?_⟩
  rintro ⟨-, d, info, hd, hinfo, hfound, -⟩
  cases hd
  cases hfind.symm.trans hinfo
  exact Bool.noConfusion (hvalid.symm.trans hfound)

/-- An image that is found in free RAM stays there unprotected. -/
theorem found_not_reserved :
    ¬ ∀ b, load_ifs2_nonbootable (fourWords (some 0x40001000)) (imageAt 0x40001000) bank = .ok b →
    Reserved b.tables b.dst (fourWords (some 0x40001000)).ifs2_size := by
  intro h
  have hrun : (load_ifs2_nonbootable (fourWords (some 0x40001000)) (imageAt 0x40001000)
      bank).toOption.map
      (fun b => (b.dst, b.tables.ram.entries)) = some (0x40001000, [⟨0x40000010, 0xffff0⟩]) := by
    decide +kernel
  obtain ⟨b, hb, heq⟩ := Option.map_eq_some_iff.mp hrun
  obtain ⟨hdst, hentries⟩ := Prod.mk.inj heq
  refine h b (toOption_eq_some.mp hb) 0x40001000 hdst.le (by rw [hdst]; decide)
    ⟨⟨0x40000010, 0xffff0⟩, ?_, by decide, by decide⟩
  rw [hentries]
  exact List.mem_singleton_self _

end Startup
