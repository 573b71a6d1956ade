import RpiBsp.Startup.Memfuncs
import RpiBsp.Startup.Mmu.Calls

/-!
# Startup — ELF — definitions

`load_elf64mmu` of `elf64.c` and `elf_map` of `elf_map.c`: a bootstrap executable of 64 bits gets
its memory.  A segment that is in RAM at its physical address already is mapped there, up to the
last page of the file that is full; the rest, or all of a segment that has no physical address, is
copied to new pages.

The program headers are a list, as they are read from the image.  `copy_memory` has a loop that need
not end, so the outcome is a state, a crash, or a run that goes on forever (`Stop`).
-/

namespace Startup.Elf

open Support

/-! ### Program headers -/

def PT_LOAD : ℕ := 1

def PF_X : ℕ := 1
def PF_W : ℕ := 2

def PAGEBITS : ℕ := PAGESIZE - 1

structure Elf64_Phdr where
  p_type : ℕ
  p_flags : ℕ
  p_offset : ℕ
  p_vaddr : ℕ
  p_paddr : ℕ
  p_filesz : ℕ
  p_memsz : ℕ
deriving DecidableEq, Repr

namespace Elf64_Phdr

variable (ph : Elf64_Phdr)

def vaddr : ℕ := ph.p_vaddr &&& notW 64 PAGEBITS
def paddr : ℕ := ph.p_paddr &&& notW 64 PAGEBITS

/-- `memsz` and `filesz` as they are computed first. -/
def memsz₀ : ℕ := addW 64 ph.p_memsz (ph.p_vaddr &&& PAGEBITS)
def filesz₀ : ℕ := addW 64 ph.p_filesz (ph.p_vaddr &&& PAGEBITS)

/-- The test for a segment that can be mapped as whole pages. -/
def Whole : Prop := ph.p_flags &&& PF_W = 0 ∧ ph.memsz₀ = ph.filesz₀

instance : Decidable ph.Whole := inferInstanceAs (Decidable (_ ∧ _))

/-- `memsz` and `filesz` after that test. -/
def memsz : ℕ := if ph.Whole then ROUNDPG ph.filesz₀ else ph.memsz₀
def filesz : ℕ := if ph.Whole then ROUNDPG ph.filesz₀ else ph.filesz₀

end Elf64_Phdr

/-! ### Memory -/

/-- The page of an address. -/
def page (x : ℕ) : ℕ := x - x % PAGESIZE

/-- The byte at an address. -/
def byte (m : Mmu) (x : ℕ) : UInt8 :=
  UInt8.ofNat (m.mem (page x) (x % PAGESIZE / 8) / 256 ^ (x % 8))

/-- `memmove`, word by word: a word that has none of the bytes stays. -/
def memmove (d s n : ℕ) (m : Mmu) : Mmu :=
  { m with mem := fun p i =>
      if i < NPTE_PTBL ∧ ∃ j < 8, d ≤ p + 8 * i + j ∧ p + 8 * i + j < d + n then
        load 8 (p + 8 * i) (moved d s n (byte m))
      else m.mem p i }

/-- Why there is no state to go on with. -/
inductive Stop where
  | crash (c : Crash)
  | forever
deriving DecidableEq, Repr

def orCrash {α : Type} : Except Crash α → Except Stop α := Except.mapError .crash

/-- A call of `copy_memory`.  The destination is RAM of this MMU, or `NULL_PADDR`: then `elf_map`
crashes. -/
def copy (dst src len : ℕ) (m : Mmu) : Except Stop Mmu :=
  match copy_memory memmove dst src len m with
  | some m => .ok m
  | none => .error .forever

/-! ### Loading -/

/-- `elf_map`.  `aarch64_map` does not look at `PROT_READ`. -/
def elf_map (C : MmuConsts) (env : MmuEnv) (vaddr paddr size flags : ℕ) (m : Mmu) :
    Except Stop Mmu :=
  orCrash ((aarch64_map C env vaddr paddr size
    { write := flags &&& PF_W ≠ 0, exec := flags &&& PF_X ≠ 0 } m).map Prod.snd)

/-- `room` bytes are allocated, `len` of them filled from `src`, and `size` of them mapped. -/
def mapCopied (C : MmuConsts) (env : MmuEnv) (vaddr room size src len flags : ℕ) (m : Mmu) :
    Except Stop Mmu := do
  let (daddr, m) ← orCrash (callocPages room m)
  let m ← copy daddr src len m
  elf_map C env vaddr daddr size flags m

/-- A segment with a physical address. -/
def loadInPlace (C : MmuConsts) (env : MmuEnv) (ph : Elf64_Phdr) (m : Mmu) : Except Stop Mmu := do
  let memsz := if ph.p_memsz = ph.p_filesz then ROUNDPG ph.filesz else ph.memsz
  let filesz := if ph.p_memsz = ph.p_filesz then ROUNDPG ph.filesz else ph.filesz
  let full := filesz &&& notW 64 PAGEBITS
  let m ← elf_map C env ph.vaddr ph.paddr full ph.p_flags m
  let memsz := ROUNDPG (subW 64 memsz full)
  if memsz ≠ 0 then
    mapCopied C env (addW 64 ph.vaddr full) memsz memsz (addW 64 ph.paddr full)
      (filesz &&& PAGEBITS) ph.p_flags m
  else return m

/-- A segment without one. -/
def loadCopied (C : MmuConsts) (env : MmuEnv) (addr : ℕ) (ph : Elf64_Phdr) (m : Mmu) :
    Except Stop Mmu :=
  mapCopied C env ph.vaddr (ROUNDPG ph.memsz) ph.memsz
    (subW 64 (addW 64 addr ph.p_offset) (ph.p_vaddr &&& PAGEBITS)) ph.filesz ph.p_flags m

def loadMemory (C : MmuConsts) (env : MmuEnv) (addr : ℕ) (ph : Elf64_Phdr) (m : Mmu) :
    Except Stop Mmu :=
  if ph.p_paddr ≠ 0 then loadInPlace C env ph m else loadCopied C env addr ph m

structure Boot where
  mmu : Mmu
  boot_vaddr_base : ℕ
  boot_vaddr_end : ℕ

/-- The two `if`s about the range of addresses. -/
def Boot.cover (vaddr memsz : ℕ) (s : Boot) : Boot :=
  { s with
    boot_vaddr_base := if s.boot_vaddr_base = 0 ∨ vaddr < s.boot_vaddr_base then vaddr
      else s.boot_vaddr_base
    boot_vaddr_end := if s.boot_vaddr_end < addW 64 vaddr memsz then addW 64 vaddr memsz
      else s.boot_vaddr_end }

def loadSegment (C : MmuConsts) (env : MmuEnv) (addr : ℕ) (ph : Elf64_Phdr) (s : Boot) :
    Except Stop Boot := do
  let m ← loadMemory C env addr ph s.mmu
  return { s.cover ph.vaddr ph.memsz₀ with mmu := m }

/-- `load_elf64mmu`: the loop over the program headers. -/
def load_elf64mmu (C : MmuConsts) (env : MmuEnv) (addr : ℕ) :
    List Elf64_Phdr → Boot → Except Stop Boot
  | [], s => .ok s
  | ph :: phs, s =>
      if ph.p_type = PT_LOAD then do
        let s ← loadSegment C env addr ph s
        load_elf64mmu C env addr phs s
      else load_elf64mmu C env addr phs s

end Startup.Elf
