import RpiBsp.Startup.Ram.Definitions

/-!
# Startup — MMU — definitions

`aarch64_map.c` with 4 KiB pages: three levels of page tables, built in pages that `calloc_ram`
hands out.

Memory is seen as pages of 512 words of 64 bits, `mem p i` for the word `i` of the page at `p`.
The header `aarch64/mmu.h` is not part of the repository.  Its index macros are the usual nine bits
for each level; the remaining constants are parameters, and `MmuConsts.Standard` says what the code
relies on.  Memory that is not a page table is left out, and with it the per-CPU tables that
`aarch64_map_init` fills in; their page is mapped.
-/

namespace Startup

open Support

/-! ### Constants -/

/-- The constants of `aarch64/mmu.h`. -/
structure MmuConsts where
  USER_END : ℕ
  STARTUP_BASE : ℕ
  L1_L1_IDX : ℕ
  L1_L2_IDX : ℕ
  L2_L2_IDX : ℕ
  PTE_AF : ℕ
  PTE_URW : ℕ
  PTE_KRW : ℕ
  PTE_URO : ℕ
  PTE_KRO : ℕ
  PTE_UXN : ℕ
  PTE_PXN : ℕ
  PTE_SODEV : ℕ
  PTE_DEV : ℕ
  PTE_NC : ℕ
  PTE_WBWA : ℕ
  PTE_ISH : ℕ
  PTE_nG : ℕ
  PROCESSORS_MAX : ℕ

/-- The two low bits of a descriptor of a page, or of a table. -/
def PTE_VALID : ℕ := 3
def PTP_VALID : ℕ := 1
def PTP_BLOCK : ℕ := 1
def PTE_CONTIG : ℕ := 2 ^ 52

def NPTE_PTBL : ℕ := 512
def CONTIG_PAGES : ℕ := 16

def PTP_TYPE (ptp : ℕ) : ℕ := ptp &&& 3

/-- `PTP_PADDR`, the table a descriptor points to. -/
def PTP_PADDR (ptp : ℕ) : ℕ := (ptp &&& 0x0000fffffffff000) &&& notW 64 (PAGESIZE - 1)

def L1_IDX (va : ℕ) : ℕ := (va >>> 30) &&& 0x1ff
def L2_IDX (va : ℕ) : ℕ := (va >>> 21) &&& 0x1ff
def L3_IDX (va : ℕ) : ℕ := (va >>> 12) &&& 0x1ff

def L1_VOFF (va : ℕ) : ℕ := va &&& (2 ^ 30 - 1)
def L2_VOFF (va : ℕ) : ℕ := va &&& (2 ^ 21 - 1)
def L3_VOFF (va : ℕ) : ℕ := va &&& (2 ^ 12 - 1)

/-! ### State -/

/-- What the code reads of the rest of startup. -/
structure MmuEnv where
  /-- `STARTUP_HDR_FLAGS1_VIRTUAL` -/
  is_virtual : Bool
  /-- `lsp.syspage.p->num_cpu > 1` -/
  smp : Bool
  /-- `meltdown_active > 0` -/
  meltdown : Bool

/-- The bits of `flags` that matter for a mapping. -/
structure MapFlags where
  write : Bool := false
  exec : Bool := false
  user : Bool := false
  device : Bool := false
  nocache : Bool := false
deriving DecidableEq, Repr

structure Mmu where
  ram : RamState
  mem : ℕ → ℕ → ℕ
  L1_ttbr0 : ℕ
  L1_ttbr1 : ℕ
  free_vaddr : ℕ

/-- `ptp[i] = v`. -/
def Mmu.write (m : Mmu) (p i v : ℕ) : Mmu :=
  { m with mem := Function.update m.mem p (Function.update (m.mem p) i v) }

/-- Clear the pages that start in `[a, a + size)`. -/
def Mmu.clear (m : Mmu) (a size : ℕ) : Mmu :=
  { m with mem := fun p => if a ≤ p ∧ p < a + size then fun _ => 0 else m.mem p }

/-! ### Allocation -/

/-- `calloc_ram` with its clearing of memory.  On a secure system it is `alloc_ram` that clears,
through a 32-bit address. -/
def callocPages (size : ℕ) (m : Mmu) : Except Crash (ℕ × Mmu) := do
  let (a, ram) ← calloc_ram size PAGESIZE m.ram
  let taken : Mmu := { m with ram := ram }
  if a = NULL_PADDR then return (a, taken)
  else if m.ram.secure_system then return (a, taken.clear (a % 2 ^ 32) size)
  else return (a, taken.clear a size)

def set_pte (C : MmuConsts) (env : MmuEnv) (paddr : ℕ) (flags : MapFlags) : ℕ :=
  let pte := paddr ||| PTE_VALID ||| C.PTE_AF
  let pte := pte |||
    if flags.write then (if flags.user then C.PTE_URW else C.PTE_KRW)
    else (if flags.user then C.PTE_URO else C.PTE_KRO)
  let pte := if flags.exec then pte else pte ||| (C.PTE_UXN ||| C.PTE_PXN)
  let pte :=
    if flags.device then pte ||| if flags.nocache then C.PTE_SODEV else C.PTE_DEV
    else
      let pte := pte ||| if flags.nocache then C.PTE_NC else C.PTE_WBWA
      if env.smp then pte ||| C.PTE_ISH else pte
  if env.meltdown then pte ||| C.PTE_nG else pte

def pt_alloc (C : MmuConsts) (env : MmuEnv) (m : Mmu) : Except Crash (ℕ × Mmu) := do
  let (pa, m) ← callocPages PAGESIZE m
  if pa = NULL_PADDR then throw .pt_alloc
  return (set_pte C env pa { write := true }, m)

/-- `if (ptp[i] == 0) ptp[i] = pt_alloc();` -/
def ensure (C : MmuConsts) (env : MmuEnv) (p i : ℕ) (m : Mmu) : Except Crash Mmu :=
  if m.mem p i = 0 then do
    let (e, m) ← pt_alloc C env m
    return m.write p i e
  else .ok m

/-! ### `aarch64_map` -/

/-- Where the walk stands. -/
structure Walk where
  va : ℕ
  pte : ℕ
  m : Mmu

/-- The innermost `for`: `n` descriptors from `L3i` on. -/
def fill (L3 : ℕ) : ℕ → ℕ → Walk → Walk
  | 0, _, w => w
  | n + 1, L3i, w =>
      fill L3 n (L3i + 1) ⟨addW 64 w.va PAGESIZE, addW 64 w.pte PAGESIZE, w.m.write L3 L3i w.pte⟩

/-- `USE_CONTIG` for a group of 16 pages. -/
def USE_CONTIG (va pa size : ℕ) : Bool :=
  CONTIG_PAGES * PAGESIZE ≤ size ∧ (va ||| pa) &&& (CONTIG_PAGES * PAGESIZE - 1) = 0

/-- The loop over an L3 table.  Like the two around it, it has at most `NPTE_PTBL` iterations. -/
def mapL3 (L3 end_ : ℕ) : ℕ → ℕ → Walk → Walk
  | 0, _, w => w
  | fuel + 1, L3i, w =>
      if L3i < NPTE_PTBL ∧ w.va < end_ then
        if USE_CONTIG w.va (trunc 64 w.pte PAGESIZE) (end_ - w.va) then
          let w := fill L3 CONTIG_PAGES L3i { w with pte := w.pte ||| PTE_CONTIG }
          mapL3 L3 end_ fuel (L3i + CONTIG_PAGES) { w with pte := w.pte &&& notW 64 PTE_CONTIG }
        else mapL3 L3 end_ fuel (L3i + 1) (fill L3 1 L3i w)
      else w

/-- The loop over an L2 table. -/
def mapL2 (C : MmuConsts) (env : MmuEnv) (L2 end_ : ℕ) : ℕ → ℕ → Walk → Except Crash Walk
  | 0, _, w => .ok w
  | fuel + 1, L2i, w =>
      if L2i < NPTE_PTBL ∧ w.va < end_ then do
        let m ← ensure C env L2 L2i w.m
        let w := mapL3 (PTP_PADDR (m.mem L2 L2i)) end_ NPTE_PTBL (L3_IDX w.va) { w with m := m }
        mapL2 C env L2 end_ fuel (L2i + 1) w
      else .ok w

/-- The loop over the L1 table. -/
def mapL1 (C : MmuConsts) (env : MmuEnv) (L1 end_ : ℕ) : ℕ → ℕ → Walk → Except Crash Walk
  | 0, _, w => .ok w
  | fuel + 1, L1i, w =>
      if L1i < NPTE_PTBL ∧ w.va < end_ then do
        let m ← ensure C env L1 L1i w.m
        let w ← mapL2 C env (PTP_PADDR (m.mem L1 L1i)) end_ NPTE_PTBL (L2_IDX w.va)
          { w with m := m }
        mapL1 C env L1 end_ fuel (L1i + 1) w
      else .ok w

/-- The virtual address a call of `aarch64_map` is about, and the state with `free_vaddr` moved
on. -/
def mapVaddr (vaddr off size : ℕ) (m : Mmu) : Except Crash (ℕ × Mmu) :=
  if vaddr = 2 ^ 64 - 1 then
    .ok (m.free_vaddr, { m with free_vaddr := addW 64 m.free_vaddr size })
  else if vaddr &&& (PAGESIZE - 1) ≠ off then .error .bad_alignment
  else .ok (vaddr, m)

/-- Which L1 table maps `[va, end_)`. -/
def mapTable (C : MmuConsts) (va end_ : ℕ) (m : Mmu) : Except Crash ℕ :=
  if end_ < va then .error .bad_vaddr
  else if va < C.USER_END then
    if C.USER_END ≤ end_ then .error .bad_vaddr else .ok m.L1_ttbr0
  else if va < C.STARTUP_BASE then .error .bad_vaddr
  else .ok m.L1_ttbr1

/-- `aarch64_map`: the address it returns and the state after it. -/
def aarch64_map (C : MmuConsts) (env : MmuEnv) (vaddr paddr size : ℕ) (flags : MapFlags)
    (m : Mmu) : Except Crash (ℕ × Mmu) :=
  if ¬ env.is_virtual then .ok (paddr, m)
  else do
    let off := paddr &&& (PAGESIZE - 1)
    let paddr := paddr &&& notW 64 (PAGESIZE - 1)
    let size := round 64 (addW 64 size off) PAGESIZE
    let (vaddr, m) ← mapVaddr vaddr off size m
    let va := trunc 64 vaddr PAGESIZE
    let end_ := addW 64 va size
    let L1 ← mapTable C va end_ m
    let w ← mapL1 C env L1 end_ NPTE_PTBL (L1_IDX va) ⟨va, set_pte C env paddr flags, m⟩
    return (addW 64 vaddr off, w.m)

/-- `aarch64_map_init`. -/
def aarch64_map_init (C : MmuConsts) (env : MmuEnv) (m : Mmu) : Except Crash Mmu := do
  let (ttbr0, m) ← callocPages PAGESIZE m
  let m := { m with L1_ttbr0 := PTP_PADDR ttbr0 }
  let (L1pte, m) ← pt_alloc C env m
  let m := { m with L1_ttbr1 := PTP_PADDR L1pte }
  let m := m.write m.L1_ttbr1 C.L1_L1_IDX L1pte
  let (L2pte, m) ← pt_alloc C env m
  let m := m.write m.L1_ttbr1 C.L1_L2_IDX L2pte
  let m := m.write (PTP_PADDR L2pte) C.L2_L2_IDX L1pte
  let m := { m with free_vaddr := C.STARTUP_BASE }
  let l0size := round 64 (64 * C.PROCESSORS_MAX) PAGESIZE
  let (L0_paddr, m) ← callocPages l0size m
  if L0_paddr = NULL_PADDR then throw .outside
  let (_, m) ← aarch64_map C env (2 ^ 64 - 1) L0_paddr l0size { write := true } m
  return m

/-! ### `elf_vaddr_to_paddr` -/

/-- Which L1 table maps `vaddr`. -/
def walkTable (C : MmuConsts) (vaddr : ℕ) (m : Mmu) : Except Crash ℕ :=
  if vaddr < C.USER_END then .ok m.L1_ttbr0
  else if vaddr < C.STARTUP_BASE then .error .bad_vaddr
  else .ok m.L1_ttbr1

/-- The walk from an L1 table. -/
def walkFrom (L1 vaddr : ℕ) (mem : ℕ → ℕ → ℕ) : ℕ :=
  let pa := mem L1 (L1_IDX vaddr)
  if pa &&& PTP_VALID = 0 then NULL_PADDR
  else if PTP_TYPE pa = PTP_BLOCK then PTP_PADDR pa ||| L1_VOFF vaddr
  else
    let pa := mem (PTP_PADDR pa) (L2_IDX vaddr)
    if pa &&& PTP_VALID = 0 then NULL_PADDR
    else if PTP_TYPE pa = PTP_BLOCK then PTP_PADDR pa ||| L2_VOFF vaddr
    else
      let pa := mem (PTP_PADDR pa) (L3_IDX vaddr)
      if pa &&& PTE_VALID ≠ PTE_VALID then NULL_PADDR
      else PTP_PADDR pa ||| L3_VOFF vaddr

def elf_vaddr_to_paddr (C : MmuConsts) (vaddr : ℕ) (m : Mmu) : Except Crash ℕ := do
  let L1 ← walkTable C vaddr m
  return walkFrom L1 vaddr m.mem

end Startup
