import RpiBsp.Startup.Asinfo.Definitions
import RpiBsp.Support.Memory

/-!
# Startup — Syspage — definitions

`syspage_memory.c`: the temporary system page, a header followed by sections packed one after the
other, and the list of addresses into it that `callouts.c` keeps.

The sections of `struct local_syspage` other than its header are an index type `ι`; the header is
`none`.  The header holds two of the numbers the code works with, `total_size` and `size` (which is
the maximum while the page is built), so they are read from memory and written to it; where they
stand in the header, and how wide they are, is up to a `Layout`.  Pointers are 64-bit words and
`unsigned` is a 32-bit one.

The other fields of the header are left out, and with them the stores of `init_syspage_memory`
that fill them in.
-/

namespace Startup

open Support

/-- Where `struct syspage_entry` keeps its sizes. -/
structure Layout where
  /-- The size of the header, rounded up to 8. -/
  spsize : ℕ
  size_off : ℕ
  total_size_off : ℕ
  /-- The width of the two fields, in bytes. -/
  width : ℕ

/-- The fields are in the header, and apart. -/
structure Layout.Valid (L : Layout) : Prop where
  pos : 0 < L.spsize
  size_in : L.size_off + L.width ≤ L.spsize
  total_in : L.total_size_off + L.width ≤ L.spsize
  apart : L.size_off + L.width ≤ L.total_size_off ∨ L.total_size_off + L.width ≤ L.size_off
  /-- The header's own size fits a field, and an `unsigned`. -/
  fits : L.spsize < 256 ^ L.width
  small : L.spsize < 2 ^ 32

/-- `local_section`. -/
structure LocalSection where
  p : ℕ
  size : ℕ
deriving DecidableEq, Repr

/-- `struct co_info` in `patch_data`: the address and what was registered for it. -/
structure CoInfo where
  owner : ℕ
  data : ℕ
deriving DecidableEq, Repr

/-- Memory, `lsp`, `fixed_size` and `patch_data`. -/
structure Syspage (ι : Type) where
  mem : ℕ → UInt8
  lsp : Option ι → LocalSection
  fixed_size : ℕ
  patch_data : List CoInfo

namespace Syspage

variable {ι : Type}

/-- `lsp.syspage.p`. -/
def base (s : Syspage ι) : ℕ := (s.lsp none).p

/-- `lsp.syspage.p->total_size`. -/
def total_size (L : Layout) (s : Syspage ι) : ℕ := load L.width (s.base + L.total_size_off) s.mem

/-- `lsp.syspage.p->size`. -/
def max_size (L : Layout) (s : Syspage ι) : ℕ := load L.width (s.base + L.size_off) s.mem

end Syspage

variable {ι : Type} [DecidableEq ι]

/-- `callout_reloc_data`. -/
def callout_reloc_data (base len diff : ℕ) (patch_data : List CoInfo) : List CoInfo :=
  patch_data.map fun pd =>
    if base ≤ pd.owner ∧ pd.owner < addW 64 base len then
      { pd with owner := addW 64 pd.owner diff }
    else pd

/-- `callout_register_data`, with `patched` for the test that there is data and a routine with a
patcher. -/
def callout_register_data (rp data : ℕ) (patched : Bool) (s : Syspage ι) : Syspage ι :=
  if patched ∧ ∀ pd ∈ s.patch_data, pd.owner ≠ rp then
    { s with patch_data := ⟨rp, data⟩ :: s.patch_data }
  else s

/-- The loop of `grow_syspage_section` over the sections. -/
def shiftSections (sect : Option ι) (bottom add : ℕ) (lsp : Option ι → LocalSection) :
    Option ι → LocalSection :=
  fun s2 =>
    if s2 ≠ sect ∧ bottom ≤ (lsp s2).p then { lsp s2 with p := addW 64 (lsp s2).p add }
    else lsp s2

/-- `grow_syspage_section`. -/
def grow_syspage_section (L : Layout) (sect : Option ι) (add : ℕ) (s : Syspage ι) :
    Except Crash (Syspage ι) :=
  if 0 < add then
    let add := round 64 add 8 % 2 ^ 32
    let new_size := addW 32 (s.total_size L) add
    if s.max_size L < new_size then .error .syspage_overflow
    else
      let bottom := addW 64 (s.lsp sect).p (s.lsp sect).size
      let s := { s with lsp := shiftSections sect bottom add s.lsp }
      let len := subW 64 (s.total_size L) (subW 64 bottom s.base) % 2 ^ 32
      let mem := memmove (addW 64 bottom add) bottom len s.mem
      let patch_data := callout_reloc_data bottom len add s.patch_data
      let mem := memset bottom add 0 mem
      let lsp := Function.update s.lsp sect
        { s.lsp sect with size := addW 32 (s.lsp sect).size add }
      let mem := store L.width ((lsp none).p + L.total_size_off) new_size mem
      .ok { s with mem := mem, lsp := lsp, patch_data := patch_data }
  else .ok s

/-- `set_syspage_section`. -/
def set_syspage_section (L : Layout) (sect : Option ι) (size : ℕ) (s : Syspage ι) :
    Except Crash (Syspage ι) :=
  let size := round 64 size 8 % 2 ^ 32
  let lsp := Function.update s.lsp sect { s.lsp sect with p := addW 64 s.base s.fixed_size }
  grow_syspage_section L sect size
    { s with lsp := lsp, fixed_size := addW 32 s.fixed_size size }

/-- `init_syspage_memory` up to its first call of `set_syspage_section`; what follows are calls
like any others. -/
def init_syspage_memory (L : Layout) (base max_size : ℕ) (s : Syspage ι) : Syspage ι :=
  let lsp : Option ι → LocalSection
    | none => ⟨base, L.spsize⟩
    | some _ => ⟨addW 64 base L.spsize, 0⟩
  let mem := memset base L.spsize 0 s.mem
  let mem := store L.width (base + L.total_size_off) L.spsize mem
  let mem := store L.width (base + L.size_off) max_size mem
  { s with mem := mem, lsp := lsp, fixed_size := L.spsize }

/-- `reloc_syspage_memory`.  The old header is read once more after the page was moved. -/
def reloc_syspage_memory (L : Layout) (base max_size : ℕ) (s : Syspage ι) : Syspage ι :=
  let mem := memmove base s.base (s.total_size L) s.mem
  let s := { s with mem := mem }
  let diff := subW 64 base s.base
  let patch_data := callout_reloc_data s.base (s.total_size L) diff s.patch_data
  let lsp := fun sect => { s.lsp sect with p := addW 64 (s.lsp sect).p diff }
  let mem := store L.width ((lsp none).p + L.size_off) max_size mem
  { s with mem := mem, lsp := lsp, patch_data := patch_data }

end Startup
