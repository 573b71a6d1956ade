import Mathlib.Algebra.GroupWithZero.Nat
import Mathlib.Algebra.Ring.Int.Defs
import Mathlib.Data.Nat.Bitwise
import Mathlib.Order.CompletePartialOrder
import Mathlib.Tactic.Common
import RpiBsp.Startup.Its.Definitions
import RpiBsp.Support.Word

/-!
# Startup — ITS — the tables

`gic_v3_its_initialize` looks for the device table and the collection table among the eight
GITS_BASER registers, allocates both and the command queue, and writes where they are.  What a
register gives is an input; so is where the allocator puts a table.

* `scan_eq` — the loop over the registers finds the first of each type;
* `table_spec` — a table that passes its assertions is described as it was allocated;
* `initialize_right_iff` — **main**: the tables have room just if a device table is reported, and
  each table's size fits in 32 bits and is one page at most or a whole number of pages;
* `cbaser_base` — GITS_CBASER names the command queue.
-/

namespace Startup.Its

open Support

/-! ### Definitions -/

inductive Shareability where
  | NONE
  | INNER
  | OUTER
  | RESV
deriving DecidableEq, Repr

inductive Cacheability where
  | INNER_DEVICE_nGnRnE
  | NONE
  | RD_ALLOC_WT
  | RD_ALLOC_WB
  | WR_ALLOC_WT
  | WR_ALLOC_WB
  | RDWR_ALLOC_WT
  | RDWR_ALLOC_WB
deriving DecidableEq, Repr

namespace Shareability

def value : Shareability → ℕ
  | NONE => 0
  | INNER => 1
  | OUTER => 2
  | RESV => 3

end Shareability

namespace Cacheability

def value : Cacheability → ℕ
  | INNER_DEVICE_nGnRnE => 0
  | NONE => 1
  | RD_ALLOC_WT => 2
  | RD_ALLOC_WB => 3
  | WR_ALLOC_WT => 4
  | WR_ALLOC_WB => 5
  | RDWR_ALLOC_WT => 6
  | RDWR_ALLOC_WB => 7

/-- The enumeration has two names for 0. -/
abbrev OUTER_IS_NORMAL_INNER : Cacheability := INNER_DEVICE_nGnRnE

end Cacheability

/-- `gic_tbl_params_t`. -/
structure TblParams where
  shareability : Shareability
  inner : Cacheability
  outer : Cacheability
deriving DecidableEq, Repr

/-- What is used where the shareability cannot be set. -/
def TblParams.nonCached : TblParams := ⟨.NONE, .NONE, .OUTER_IS_NORMAL_INNER⟩

/-- `device_tbl` and `collection_tbl`. -/
structure Tbl where
  page_size : ℕ
  params : TblParams
deriving DecidableEq, Repr

structure CmdQ where
  num_4k_pages : ℕ
  params : TblParams
deriving DecidableEq, Repr

/-- `arm_gic_its_params_t`, and whether there is a page for the locks already. -/
structure ItsParams where
  gits_paddr_base : ℕ
  device_tbl : Tbl
  collection_tbl : Tbl
  cmd_q : CmdQ
  locked : Bool
deriving DecidableEq, Repr

/-- What comes back while a table is set up: the memory, the register before and after its
shareability is tried, and at the end. -/
structure Answers where
  ram : ℕ
  before : ℕ
  after : ℕ
  back : ℕ
deriving DecidableEq, Repr

/-- The registers of the ITS and what it answers. -/
structure Gits where
  ctlr : ℕ → ℕ
  typer : ℕ
  baser : ℕ → ℕ
  cbaser : ℕ
  dt : Answers
  ct : Answers
  cmd_q : Answers

/-- Memory that was allocated, and what was written meanwhile, as offsets and values. -/
structure Setup where
  size : ℕ
  ram : ℕ
  writes : List (ℤ × ℕ)
deriving DecidableEq, Repr

/-- The variables of the loop over the registers. -/
structure Found where
  dt_entry_size : ℕ
  gits_baser_dt_idx : ℤ
  ct_entry_size : ℕ
  gits_baser_ct_idx : ℤ
deriving DecidableEq, Repr

/-- What is set up, with what GITS_CTLR is given at the start. -/
structure Tables where
  ctlr : ℕ
  dt : Setup
  ct : Option Setup
  cmd_q : Setup
  num_collections : ℕ
deriving DecidableEq, Repr

def NULL_PADDR_STARTUP : ℕ := 2 ^ 64 - 1

def table_type (gits_baser : ℕ) : ℕ := (gits_baser >>> 56) &&& 0x7

def entry_size (gits_baser : ℕ) : ℕ := ((gits_baser >>> 48) &&& 0x1F) + 1

/-- The loop over the registers from `i` on; `none` is a failed assertion. -/
def scan (baser : ℕ → ℕ) : ℕ → ℕ → Found → Option Found
  | 0, _, f => some f
  | left + 1, i, f =>
    let seen :=
      if table_type (baser i) = 1 then
        if f.dt_entry_size = 0 then
          some { f with dt_entry_size := entry_size (baser i), gits_baser_dt_idx := i }
        else none
      else if table_type (baser i) = 4 then
        if f.ct_entry_size = 0 then
          some { f with ct_entry_size := entry_size (baser i), gits_baser_ct_idx := i }
        else none
      else some f
    seen.bind fun f =>
      if f.gits_baser_dt_idx > 0 ∧ f.gits_baser_ct_idx > 0 then some f
      else scan baser left (i + 1) f

def page_size_bits (page_size : ℕ) : Option ℕ :=
  if page_size = 4096 then some 0
  else if page_size = 16384 then some 1
  else if page_size = 65536 then some 2
  else none

/-- The fields for the shareability and cacheability, and the mark that the table is flat and
valid. -/
def withParams (v : ℕ) (params : TblParams) : ℕ :=
  let v := v ||| params.shareability.value <<< 10 ||| params.inner.value <<< 59 |||
    params.outer.value <<< 53
  v &&& notW 64 (1 <<< 62) ||| 1 <<< 63

/-- The shareability that is tried. -/
def flipped (reading : ℕ) : ℕ := notW 32 ((reading >>> 10) &&& 3) &&& 3

/-- The parameters after the shareability was tried. -/
def settled (params : TblParams) (a : Answers) : TblParams :=
  if (a.after >>> 10) &&& 3 = flipped a.before then params else .nonCached

/-- The device table or the collection table, for GITS_BASER number `idx`. -/
def table (num_ids entry_size : ℕ) (idx : ℤ) (tbl : Tbl) (a : Answers) : Option Setup := do
  let num_pages := max 1 (uint (num_ids * entry_size) / tbl.page_size)
  guard (num_pages ≤ 0x100)
  guard (a.ram ≠ NULL_PADDR_STARTUP)
  guard (a.ram &&& 0xFFFFFFFFF000 = a.ram)
  let bits ← page_size_bits tbl.page_size
  let v := a.ram ||| bits <<< 8 ||| (num_pages - 1) &&& 0xFF
  guard (uint ((0x1000 <<< (((v >>> 8) &&& 0x3) * 2)) * ((v &&& 0xFF) + 1)) =
    uint (num_pages * tbl.page_size))
  guard ((a.back >>> 8) &&& 3 = bits)
  pure
    { size := uint (num_pages * tbl.page_size)
      ram := a.ram
      writes := [(0x100 + idx * 8, flipped a.before <<< 10),
        (0x100 + idx * 8, withParams v (settled tbl.params a))] }

def num_mem_collections (typer num_cpu : ℕ) : ℕ := min (1 <<< icid_bits typer) num_cpu

/-- The command queue, with a page for the locks behind the first one. -/
def command_queue (q : CmdQ) (locked : Bool) (cbaser : ℕ) (a : Answers) : Option Setup := do
  let extra := if locked then 0 else 4096
  let size := uint (q.num_4k_pages * 4096)
  guard (a.ram ≠ NULL_PADDR_STARTUP)
  guard (a.ram &&& 0xFFFFFFFFF0000 = a.ram)
  let params := settled q.params a
  let v := cbaser &&& notW 64 0xFFFFFFFFFF000 ||| a.ram
  let v := v &&& notW 64 0xFF ||| subW 32 (uint q.num_4k_pages) 1
  let v := v &&& notW 64 (3 <<< 10) ||| params.shareability.value <<< 10
  let v := v &&& notW 64 (7 <<< 59) ||| params.inner.value <<< 59
  let v := v &&& notW 64 (7 <<< 53) ||| params.outer.value <<< 53
  pure
    { size := size + extra
      ram := a.ram
      writes := [(0x80, flipped a.before <<< 10), (0x88, 0), (0x80, v ||| 1 <<< 63)] }

/-- `none` is a failed assertion, or an ITS that is not quiescent in time. -/
def gic_v3_its_initialize (fuel : ℕ) (p : ItsParams) (num_cpu : ℕ) (g : Gits) : Option Tables := do
  guard (p.gits_paddr_base ≠ 0)
  let ctlr := g.ctlr 0 &&& notW 32 (1 <<< 0)
  let _ ← quiescent g.ctlr fuel 1
  let devid_bits := ((g.typer >>> 13) &&& 0x1F) + 1
  guard (devid_bits < 32)
  let f ← scan g.baser 8 0 ⟨0, -1, 0, -1⟩
  let dt ← table (1 <<< devid_bits) f.dt_entry_size f.gits_baser_dt_idx p.device_tbl g.dt
  let num_hw_collections := (g.typer >>> 24) &&& 0xFF
  if f.gits_baser_ct_idx ≥ 0 then do
    guard (num_hw_collections = 0)
    let num := num_mem_collections g.typer num_cpu
    let ct ← table num f.ct_entry_size f.gits_baser_ct_idx p.collection_tbl g.ct
    guard (num_hw_collections + num > 0)
    let cmd_q ← command_queue p.cmd_q p.locked g.cbaser g.cmd_q
    pure ⟨ctlr, dt, some ct, cmd_q, num_hw_collections + num⟩
  else do
    guard (num_hw_collections > 0)
    let cmd_q ← command_queue p.cmd_q p.locked g.cbaser g.cmd_q
    pure ⟨ctlr, dt, none, cmd_q, num_hw_collections⟩

/-! ### What it is for -/

/-- All writes of the set-up, in order. -/
def Tables.writes (t : Tables) : List (ℤ × ℕ) :=
  t.dt.writes ++ (t.ct.elim [] Setup.writes) ++ t.cmd_q.writes

/-- What a register was given last. -/
def lastWrite (offset : ℤ) (writes : List (ℤ × ℕ)) : Option ℕ := writes.reverse.lookup offset

/-- The memory that a GITS_BASER describes: its address, and its size from the number and the size
of the pages. -/
def described (v : ℕ) : ℕ × ℕ :=
  (v &&& 0xFFFFFFFFF000, ((v &&& 0xFF) + 1) * (0x1000 <<< (((v >>> 8) &&& 3) * 2)))

/-- A table of some type: it has room for `need` bytes for each byte of an entry, and the register
that reported the type was told where it is. -/
def Placed (baser : ℕ → ℕ) (type num_ids : ℕ) (s : Setup) (writes : List (ℤ × ℕ)) : Prop :=
  ∃ i < 8, table_type (baser i) = type ∧ num_ids * entry_size (baser i) ≤ s.size ∧
    ∃ v, lastWrite (0x100 + i * 8) writes = some v ∧ described v = (s.ram, s.size)

/-- Both tables are as the registers ask; the collection table if there is a register for it. -/
structure Right (g : Gits) (num_cpu : ℕ) (t : Tables) : Prop where
  dt : Placed g.baser 1 (2 ^ (((g.typer >>> 13) &&& 0x1F) + 1)) t.dt t.writes
  ct : (∃ i < 8, table_type (g.baser i) = 4) →
    ∃ s, t.ct = some s ∧ Placed g.baser 4 (num_mem_collections g.typer num_cpu) s t.writes

/-- The first register below `n` that reports a type. -/
def first (baser : ℕ → ℕ) (n type : ℕ) : Option ℕ :=
  (List.range n).find? fun i => table_type (baser i) = type

/-- A size that fits in 32 bits, and is one page at most or a whole number of pages. -/
def Whole (page_size need : ℕ) : Prop := need < 2 ^ 32 ∧ (need ≤ page_size ∨ page_size ∣ need)

/-- A device table is reported, and the tables are of such sizes. -/
def Enough (p : ItsParams) (num_cpu : ℕ) (g : Gits) : Prop :=
  (∃ i, first g.baser 8 1 = some i ∧
      Whole p.device_tbl.page_size
        (2 ^ (((g.typer >>> 13) &&& 0x1F) + 1) * entry_size (g.baser i))) ∧
    ∀ i, first g.baser 8 4 = some i →
      Whole p.collection_tbl.page_size
        (num_mem_collections g.typer num_cpu * entry_size (g.baser i))

/-! ### The registers -/

theorem entry_size_pos (w : ℕ) : 0 < entry_size w := Nat.succ_pos _

variable {baser : ℕ → ℕ} {i j n m type : ℕ}

theorem first_succ : first baser (n + 1) type =
    (first baser n type).or (if table_type (baser n) = type then some n else none) := by
  rw [first, List.range_succ, List.find?_append]
  congr 1
  by_cases h : table_type (baser n) = type <;> simp [h]

theorem first_eq_some (h : first baser n type = some i) : i < n ∧ table_type (baser i) = type := by
  have hmem := List.mem_range.mp (List.mem_of_find?_eq_some h)
  have htype := List.find?_some h
  exact ⟨hmem, of_decide_eq_true htype⟩

theorem first_mono (h : first baser n type = some i) (hle : n ≤ m) :
    first baser m type = some i := by
  obtain ⟨k, rfl⟩ := Nat.exists_eq_add_of_le hle
  induction k with
  | zero => exact h
  | succ k ih =>
      rw [← Nat.add_assoc, first_succ, ih (Nat.le_add_right _ _)]
      rfl

theorem first_isSome (hi : i < n) (h : table_type (baser i) = type) :
    ∃ j, first baser n type = some j := by
  refine Option.isSome_iff_exists.mp (List.find?_isSome.mpr ⟨i, List.mem_range.mpr hi, ?_⟩)
  exact decide_eq_true h

/-- What the loop knows after the registers below `n`. -/
def found (baser : ℕ → ℕ) (n : ℕ) : Found :=
  ⟨(first baser n 1).elim 0 fun i => entry_size (baser i), (first baser n 1).elim (-1) fun i => i,
    (first baser n 4).elim 0 fun i => entry_size (baser i), (first baser n 4).elim (-1) fun i => i⟩

theorem first_eq_none_of_size
    (h : ((first baser n type).elim 0 fun i => entry_size (baser i)) = 0) :
    first baser n type = none := by
  cases hf : first baser n type with
  | none => rfl
  | some i =>
      rw [hf] at h
      exact absurd h (entry_size_pos _).ne'

theorem first_of_idx (h : ((first baser n type).elim (-1) fun i => (i : ℤ)) > 0) :
    ∃ i, first baser n type = some i := by
  cases hf : first baser n type with
  | none =>
      rw [hf] at h
      exact absurd h (by decide)
  | some i => exact ⟨i, rfl⟩

/-- One round of the loop. -/
theorem scan_step {f : Found}
    (h : (if table_type (baser n) = 1 then
        if (found baser n).dt_entry_size = 0 then
          some { found baser n with dt_entry_size := entry_size (baser n), gits_baser_dt_idx := n }
        else none
      else if table_type (baser n) = 4 then
        if (found baser n).ct_entry_size = 0 then
          some { found baser n with ct_entry_size := entry_size (baser n), gits_baser_ct_idx := n }
        else none
      else some (found baser n)) = some f) : f = found baser (n + 1) := by
  split at h
  · split at h
    · have hnone := first_eq_none_of_size (show ((first baser n 1).elim 0 _) = 0 from ‹_›)
      rw [← Option.some.inj h]
      simp [found, first_succ, hnone, ‹table_type (baser n) = 1›]
    · simp at h
  · split at h
    · split at h
      · have hnone := first_eq_none_of_size (show ((first baser n 4).elim 0 _) = 0 from ‹_›)
        rw [← Option.some.inj h]
        simp [found, first_succ, hnone, ‹table_type (baser n) = 4›]
      · simp at h
    · rw [← Option.some.inj h]
      simp [found, first_succ, ‹¬ table_type (baser n) = 1›, ‹¬ table_type (baser n) = 4›]

/-- The loop finds the first register of each type, also where it stops early. -/
theorem scan_eq {left : ℕ} {f : Found} (h : scan baser left n (found baser n) = some f) :
    f = found baser (n + left) := by
  induction left generalizing n with
  | zero => exact (Option.some.inj h).symm
  | succ left ih =>
      obtain ⟨f', hstep, hrest⟩ := Option.bind_eq_some_iff.mp h
      rw [scan_step hstep] at hrest
      split at hrest
      · rename_i hboth
        obtain ⟨d, hd⟩ := first_of_idx hboth.1
        obtain ⟨c, hc⟩ := first_of_idx hboth.2
        rw [← Option.some.inj hrest]
        simp only [found, hd, hc, first_mono hd (show n + 1 ≤ n + (left + 1) by omega),
          first_mono hc (show n + 1 ≤ n + (left + 1) by omega)]
      · rw [ih hrest, Nat.add_assoc, Nat.add_comm 1]

/-! ### A table -/

theorem guard_bind {α : Type} {c : Prop} [Decidable c] {f : Unit → Option α} {a : α} :
    ((guard c : Option Unit) >>= f) = some a ↔ c ∧ f () = some a := by
  by_cases h : c <;> simp [h, guard]

theorem page_size_bits_eq_some {page_size bits : ℕ} (h : page_size_bits page_size = some bits) :
    bits < 3 ∧ page_size = 0x1000 <<< (bits * 2) := by
  rw [page_size_bits] at h
  split at h
  · cases h; exact ⟨by decide, ‹_›⟩
  · split at h
    · cases h; exact ⟨by decide, ‹_›⟩
    · split at h
      · cases h; exact ⟨by decide, ‹_›⟩
      · simp at h

/-- The attributes are in fields of their own. -/
theorem withParams_and (v : ℕ) (params : TblParams) (mask : ℕ)
    (hmask : mask &&& 0xFFFFFFFFF3FF = mask) :
    withParams v params &&& mask = v &&& mask := by
  have hlow {x : ℕ} (hx : x &&& 0xFFFFFFFFF3FF = 0) : x &&& mask = 0 := by
    rw [← hmask, Nat.and_comm mask, ← Nat.and_assoc, hx, Nat.zero_and]
  have hkeep : notW 64 (1 <<< 62) &&& mask = mask := by
    rw [← hmask, Nat.and_comm mask, ← Nat.and_assoc]
    rfl
  have hshare : params.shareability.value <<< 10 &&& mask = 0 :=
    hlow (by cases params.shareability <;> rfl)
  have hinner : params.inner.value <<< 59 &&& mask = 0 := hlow (by cases params.inner <;> rfl)
  have houter : params.outer.value <<< 53 &&& mask = 0 := hlow (by cases params.outer <;> rfl)
  have hvalid : 1 <<< 63 &&& mask = 0 := hlow rfl
  rw [withParams, Nat.and_or_distrib_right, hvalid, Nat.or_zero, Nat.and_assoc, hkeep]
  simp only [Nat.and_or_distrib_right, hshare, hinner, houter, Nat.or_zero]

theorem size_field : ∀ bits < 3, bits <<< 8 &&& 0xFFFFFFFFF000 = 0 ∧ bits <<< 8 &&& 0xFF = 0 ∧
    (bits <<< 8 &&& 0x300) >>> 8 = bits := by decide

/-- What a GITS_BASER describes, from the parts it was made of. -/
theorem described_withParams {ram bits pages : ℕ} (params : TblParams)
    (hram : ram &&& 0xFFFFFFFFF000 = ram) (hbits : bits < 3) (hpages : pages < 0x100) :
    described (withParams (ram ||| bits <<< 8 ||| pages &&& 0xFF) params) =
      (ram, (pages + 1) * (0x1000 <<< (bits * 2))) := by
  obtain ⟨hhigh, hlow, hfield⟩ := size_field bits hbits
  have hp : pages &&& 0xFF = pages := by
    rw [show (0xFF : ℕ) = 2 ^ 8 - 1 from rfl, Nat.and_two_pow_sub_one_eq_mod,
      Nat.mod_eq_of_lt hpages]
  have hram0 (mask : ℕ) (h : 0xFFFFFFFFF000 &&& mask = 0) : ram &&& mask = 0 := by
    rw [← hram, Nat.and_assoc, h, Nat.and_zero]
  have hp0 (mask : ℕ) (h : 0xFF &&& mask = 0) : pages &&& mask = 0 := by
    rw [← hp, Nat.and_assoc, h, Nat.and_zero]
  have haddr : withParams (ram ||| bits <<< 8 ||| pages) params &&& 0xFFFFFFFFF000 = ram := by
    rw [withParams_and _ _ _ rfl]
    simp only [Nat.and_or_distrib_right, hram, hhigh, hp0 0xFFFFFFFFF000 rfl, Nat.or_zero]
  have hcount : withParams (ram ||| bits <<< 8 ||| pages) params &&& 0xFF = pages := by
    rw [withParams_and _ _ _ rfl]
    simp only [Nat.and_or_distrib_right, hram0 0xFF rfl, hlow, hp, Nat.zero_or]
  have hsize : (withParams (ram ||| bits <<< 8 ||| pages) params >>> 8) &&& 3 = bits := by
    have hand := withParams_and (ram ||| bits <<< 8 ||| pages) params 0x300 rfl
    simp only [Nat.and_or_distrib_right, hram0 0x300 rfl, hp0 0x300 rfl, Nat.or_zero,
      Nat.zero_or] at hand
    rw [show (3 : ℕ) = 0x300 >>> 8 from rfl, ← Nat.shiftRight_and_distrib, hand, hfield]
  rw [hp, described, haddr, hcount, hsize]

/-- A table that passes its assertions is described as it was allocated. -/
theorem table_spec {num_ids entry : ℕ} {idx : ℤ} {tbl : Tbl} {a : Answers} {s : Setup}
    (h : table num_ids entry idx tbl a = some s) :
    0 < tbl.page_size ∧ tbl.page_size ≤ 0x10000 ∧
      max 1 (uint (num_ids * entry) / tbl.page_size) ≤ 0x100 ∧
      s.size = max 1 (uint (num_ids * entry) / tbl.page_size) * tbl.page_size ∧
      ∃ w v, s.writes = [(0x100 + idx * 8, w), (0x100 + idx * 8, v)] ∧
      described v = (s.ram, s.size) := by
  rw [table] at h
  simp only [guard_bind] at h
  obtain ⟨hpages, -, hram, h⟩ := h
  obtain ⟨bits, hsize, h⟩ := Option.bind_eq_some_iff.mp h
  simp only [guard_bind] at h
  obtain ⟨-, -, h⟩ := h
  cases h
  obtain ⟨hbits, hpage⟩ := page_size_bits_eq_some hsize
  have hrange : ∀ b < 3, 0 < (0x1000 : ℕ) <<< (b * 2) ∧ (0x1000 : ℕ) <<< (b * 2) ≤ 0x10000 := by
    decide
  obtain ⟨hpos, hle⟩ := hrange bits hbits
  rw [← hpage] at hpos hle
  have hfit : uint (max 1 (uint (num_ids * entry) / tbl.page_size) * tbl.page_size) =
      max 1 (uint (num_ids * entry) / tbl.page_size) * tbl.page_size := by
    have := Nat.mul_le_mul hpages hle
    exact uint_of_lt (by omega)
  have hone : 1 ≤ max 1 (uint (num_ids * entry) / tbl.page_size) := Nat.le_max_left _ _
  refine ⟨hpos, hle, hpages, hfit, _, _, rfl, ?_⟩
  rw [described_withParams _ hram hbits (by omega), Nat.sub_add_cancel hone, ← hpage, hfit]

/-- When a table has room. -/
theorem room_iff {need page_size : ℕ} (hle : page_size ≤ 0x10000)
    (hpages : max 1 (uint need / page_size) ≤ 0x100) :
    need ≤ max 1 (uint need / page_size) * page_size ↔ Whole page_size need := by
  have hmax := Nat.mul_le_mul hpages hle
  rw [Whole]
  constructor
  · intro h
    have hneed : need < 2 ^ 32 := by omega
    rw [uint_of_lt hneed] at h
    refine ⟨hneed, ?_⟩
    rcases Nat.lt_or_ge 1 (need / page_size) with hbig | hsmall
    · right
      rw [Nat.max_eq_right hbig.le] at h
      exact ⟨_, (Nat.le_antisymm h (Nat.div_mul_le_self _ _)).trans (Nat.mul_comm _ _)⟩
    · left
      rwa [Nat.max_eq_left hsmall, Nat.one_mul] at h
  · rintro ⟨hneed, hone | hdvd⟩
    · exact hone.trans (Nat.le_mul_of_pos_left _
        (Nat.lt_of_lt_of_le Nat.one_pos (Nat.le_max_left _ _)))
    · rw [uint_of_lt hneed]
      calc need = need / page_size * page_size := (Nat.div_mul_cancel hdvd).symm
        _ ≤ _ := Nat.mul_le_mul_right _ (Nat.le_max_right _ _)

/-! ### The registers after the run -/

theorem lastWrite_append (offset : ℤ) (l l' : List (ℤ × ℕ)) :
    lastWrite offset (l ++ l') = (lastWrite offset l').or (lastWrite offset l) := by
  rw [lastWrite, List.reverse_append, List.lookup_append]
  rfl

theorem lastWrite_pair (offset o : ℤ) (w v : ℕ) :
    lastWrite offset [(o, w), (o, v)] = if offset = o then some v else none := by
  by_cases h : offset = o
  · simp [lastWrite, h]
  · have hne : (offset == o) = false := beq_eq_false_iff_ne.mpr h
    simp [lastWrite, List.lookup_cons, h, hne]

/-- Setting up the queue leaves every GITS_BASER alone. -/
theorem lastWrite_queue {q : CmdQ} {locked : Bool} {cbaser : ℕ} {a : Answers} {s : Setup}
    (h : command_queue q locked cbaser a = some s) (i : ℕ) :
      lastWrite (0x100 + i * 8) s.writes = none := by
  rw [command_queue] at h
  simp only [guard_bind] at h
  obtain ⟨-, -, h⟩ := h
  cases h
  have h80 : ((0x100 : ℤ) + i * 8 == 0x80) = false := by
    rw [beq_eq_false_iff_ne]; omega
  have h88 : ((0x100 : ℤ) + i * 8 == 0x88) = false := by
    rw [beq_eq_false_iff_ne]; omega
  simp [lastWrite, List.lookup_cons, h80, h88]

/-! ### The run -/

variable {fuel num_cpu : ℕ} {p : ItsParams} {g : Gits} {t : Tables}

/-- What a run that passes its assertions has set up. -/
theorem initialize_eq_some (h : gic_v3_its_initialize fuel p num_cpu g = some t) :
    let f := found g.baser 8
    table (2 ^ (((g.typer >>> 13) &&& 0x1F) + 1)) f.dt_entry_size f.gits_baser_dt_idx p.device_tbl
        g.dt = some t.dt ∧
      (∃ locked cbaser a, command_queue p.cmd_q locked cbaser a = some t.cmd_q) ∧
      if f.gits_baser_ct_idx ≥ 0 then
        ∃ ct, t.ct = some ct ∧
          table (num_mem_collections g.typer num_cpu) f.ct_entry_size f.gits_baser_ct_idx
              p.collection_tbl g.ct =
            some ct
      else t.ct = none := by
  unfold gic_v3_its_initialize at h
  obtain ⟨-, h⟩ := guard_bind.mp h
  obtain ⟨-, -, h⟩ := Option.bind_eq_some_iff.mp h
  obtain ⟨-, h⟩ := guard_bind.mp h
  obtain ⟨f, hscan, h⟩ := Option.bind_eq_some_iff.mp h
  obtain ⟨dt, hdt, h⟩ := Option.bind_eq_some_iff.mp h
  cases scan_eq (show scan g.baser 8 0 (found g.baser 0) = some f from hscan)
  rw [Nat.one_shiftLeft] at hdt
  dsimp only at h ⊢
  split at h
  · obtain ⟨-, h⟩ := guard_bind.mp h
    obtain ⟨ct, hct, h⟩ := Option.bind_eq_some_iff.mp h
    obtain ⟨-, h⟩ := guard_bind.mp h
    obtain ⟨q, hq, h⟩ := Option.bind_eq_some_iff.mp h
    cases h
    rw [if_pos ‹_›]
    exact ⟨hdt, ⟨_, _, _, hq⟩, ct, rfl, hct⟩
  · obtain ⟨-, h⟩ := guard_bind.mp h
    obtain ⟨q, hq, h⟩ := Option.bind_eq_some_iff.mp h
    cases h
    rw [if_neg ‹_›]
    exact ⟨hdt, ⟨_, _, _, hq⟩, rfl⟩

/-- A table that was set up for the first register of its type. -/
theorem placed_iff {num_ids : ℕ} {s : Setup} {w : List (ℤ × ℕ)} {tbl : Tbl} {a : Answers}
    (hfirst : first baser 8 type = some j)
    (h : table num_ids (entry_size (baser j)) j tbl a = some s)
    (hlast : ∀ i, table_type (baser i) = type →
      lastWrite (0x100 + i * 8) w = lastWrite (0x100 + i * 8) s.writes) :
    Placed baser type num_ids s w ↔ Whole tbl.page_size (num_ids * entry_size (baser j)) := by
  obtain ⟨hpos, hle, hpages, hsize, _, v, hwrites, hdescribed⟩ := table_spec h
  obtain ⟨hj, htype⟩ := first_eq_some hfirst
  rw [← room_iff hle hpages, ← hsize]
  constructor
  · rintro ⟨i, -, hi, hneed, u, hu, -⟩
    rw [hlast i hi, hwrites, lastWrite_pair] at hu
    split at hu
    · rename_i hidx
      have hij : i = j := by omega
      rwa [hij] at hneed
    · simp at hu
  · intro hneed
    refine ⟨j, hj, htype, hneed, v, ?_, hdescribed⟩
    rw [hlast j htype, hwrites, lastWrite_pair, if_pos rfl]

/-- The table for one type leaves the registers of another alone. -/
theorem lastWrite_other {num_ids entry type' : ℕ} {s : Setup} {tbl : Tbl} {a : Answers}
    (hfirst : first baser 8 type = some j) (h : table num_ids entry j tbl a = some s)
    (hi : table_type (baser i) = type') (hne : type ≠ type') :
      lastWrite (0x100 + i * 8) s.writes = none := by
  obtain ⟨-, -, -, -, w, v, hwrites, -⟩ := table_spec h
  have htype := (first_eq_some hfirst).2
  rw [hwrites, lastWrite_pair, if_neg]
  intro hidx
  have hij : i = j := by omega
  exact hne (htype.symm.trans (hij ▸ hi))

/-- **The tables of the ITS.**  After a run whose assertions hold, each table has the room that the
ITS asks for, and the register that reported its type describes it, just if a device table is
reported and the sizes fit in 32 bits and in whole pages. -/
theorem initialize_right_iff (h : gic_v3_its_initialize fuel p num_cpu g = some t) :
    Right g num_cpu t ↔ Enough p num_cpu g := by
  obtain ⟨hdt, ⟨locked, cbaser, a, hq⟩, hct⟩ := initialize_eq_some h
  have hwrites (i : ℕ) : lastWrite (0x100 + i * 8) t.writes =
      (lastWrite (0x100 + i * 8) (t.ct.elim [] Setup.writes)).or
        (lastWrite (0x100 + i * 8) t.dt.writes) := by
    rw [Tables.writes, lastWrite_append, lastWrite_append, lastWrite_queue hq]
    rfl
  cases hd : first g.baser 8 1 with
  | none =>
      refine ⟨fun hright => ?_, fun henough => ?_⟩
      · obtain ⟨i, hi, htype, -⟩ := hright.dt
        obtain ⟨j, hj⟩ := first_isSome hi htype
        rw [hd] at hj
        simp at hj
      · obtain ⟨i, hi, -⟩ := henough.1
        rw [hd] at hi
        simp at hi
  | some d =>
      simp only [found, hd, Option.elim_some] at hdt hct
      cases hc : first g.baser 8 4 with
      | none =>
          simp only [hc, Option.elim_none] at hct
          rw [if_neg (by decide)] at hct
          rw [hct] at hwrites
          have hplaced := placed_iff hd hdt (w := t.writes) fun i _ => by rw [hwrites]; rfl
          refine ⟨fun hright => ⟨⟨d, hd, hplaced.mp hright.dt⟩, fun i hi => ?_⟩, fun henough =>
            ⟨?_, ?_⟩⟩
          · rw [hc] at hi
            simp at hi
          · obtain ⟨i, hi, hwhole⟩ := henough.1
            cases Option.some.inj (hd.symm.trans hi)
            exact hplaced.mpr hwhole
          · rintro ⟨i, hi, htype⟩
            obtain ⟨j, hj⟩ := first_isSome hi htype
            rw [hc] at hj
            simp at hj
      | some c =>
          simp only [hc, Option.elim_some] at hct
          rw [if_pos (Int.natCast_nonneg c)] at hct
          obtain ⟨ct, hsome, hct⟩ := hct
          rw [hsome] at hwrites
          have hplaced := placed_iff hd hdt (w := t.writes) fun i hi => by
            rw [hwrites]
            simp only [Option.elim_some, lastWrite_other hc hct hi (by decide), Option.none_or]
          have hplaced' := placed_iff hc hct (w := t.writes) fun i hi => by
            rw [hwrites]
            simp only [Option.elim_some, lastWrite_other hd hdt hi (by decide), Option.or_none]
          obtain ⟨hc8, hctype⟩ := first_eq_some hc
          constructor
          · intro hright
            refine ⟨⟨d, hd, hplaced.mp hright.dt⟩, fun i hi => ?_⟩
            cases Option.some.inj (hc.symm.trans hi)
            obtain ⟨s, hs, hs'⟩ := hright.ct ⟨c, hc8, hctype⟩
            cases Option.some.inj (hsome.symm.trans hs)
            exact hplaced'.mp hs'
          · rintro ⟨⟨i, hi, hwhole⟩, hall⟩
            cases Option.some.inj (hd.symm.trans hi)
            exact ⟨hplaced.mpr hwhole, fun _ => ⟨ct, hsome, hplaced'.mpr (hall c hc)⟩⟩

/-- The default parameters, with the ITS at an address. -/
def params : ItsParams :=
  { gits_paddr_base := 0x8080000
    device_tbl := ⟨4096, ⟨.NONE, .NONE, .NONE⟩⟩
    collection_tbl := ⟨4096, ⟨.NONE, .NONE, .NONE⟩⟩
    cmd_q := ⟨2, ⟨.NONE, .NONE, .NONE⟩⟩
    locked := false }

/-- An ITS with both tables, entries of 8 bytes, and so many bits of device number less one. -/
def board (devbits : ℕ) : Gits :=
  { ctlr := fun _ => 0x80000000
    typer := devbits <<< 13
    baser := fun i => if i = 0 then 1 <<< 56 ||| 7 <<< 48
      else if i = 1 then 4 <<< 56 ||| 7 <<< 48 else 0
    cbaser := 0
    dt := ⟨0x40000000, 0, 3 <<< 10, 0⟩
    ct := ⟨0x40100000, 0, 3 <<< 10, 0⟩
    cmd_q := ⟨0x40200000, 0, 3 <<< 10, 0⟩ }

theorem initialize_right_iff_board :
    ∃ t, gic_v3_its_initialize 1 params 4 (board 15) = some t ∧ Right (board 15) 4 t :=
  ⟨_, rfl, (@initialize_right_iff 1 4 params (board 15) _ rfl).mpr
    ⟨⟨0, by decide, by decide, .inr (by decide)⟩, fun i hi => by
      cases Option.some.inj (show some 1 = some i from hi)
      exact ⟨by decide, .inl (by decide)⟩⟩⟩

/-- With 31 bits the product is a multiple of `2 ^ 32`, and one page is allocated for 16 GiB. -/
theorem initialize_wraps :
    ∃ t, gic_v3_its_initialize 1 params 4 (board 30) = some t ∧ ¬ Right (board 30) 4 t := by
  refine ⟨_, rfl, fun hright => ?_⟩
  obtain ⟨i, -, -, hneed, -⟩ := hright.dt
  have hsize : 2 ^ 31 * entry_size ((board 30).baser i) ≤ 4096 := hneed
  have hpos := entry_size_pos ((board 30).baser i)
  omega

/-! ### The command queue -/

/-- GITS_CBASER names the queue, as long as the number of pages stays out of the address. -/
theorem cbaser_base {q : CmdQ} {locked : Bool} {cbaser : ℕ} {a : Answers} {s : Setup}
    (h : command_queue q locked cbaser a = some s) (hpos : 0 < q.num_4k_pages)
    (hpages : q.num_4k_pages ≤ 2 ^ 12) :
    ∃ v, lastWrite 0x80 s.writes = some v ∧ v &&& 0xFFFFFFFFFF000 = s.ram := by
  rw [command_queue] at h
  obtain ⟨-, h⟩ := guard_bind.mp h
  obtain ⟨hram, h⟩ := guard_bind.mp h
  cases h
  have hkeep {x : ℕ} (hx : x &&& 0xFFFFFFFFFF000 = 0xFFFFFFFFFF000) (y : ℕ) :
      (y &&& x) &&& 0xFFFFFFFFFF000 = y &&& 0xFFFFFFFFFF000 := by
    rw [Nat.and_assoc, hx]
  have hold : (cbaser &&& notW 64 0xFFFFFFFFFF000) &&& 0xFFFFFFFFFF000 = 0 := by
    rw [Nat.and_assoc, show notW 64 0xFFFFFFFFFF000 &&& 0xFFFFFFFFFF000 = 0 from rfl, Nat.and_zero]
  have hbase : a.ram &&& 0xFFFFFFFFFF000 = a.ram := by
    rw [← hram, Nat.and_assoc]
    rfl
  have hcount : subW 32 (uint q.num_4k_pages) 1 &&& 0xFFFFFFFFFF000 = 0 := by
    rw [uint_of_lt (by omega), subW_of_le hpos (by omega),
      ← Nat.mod_eq_of_lt (show q.num_4k_pages - 1 < 2 ^ 12 by omega),
      ← Nat.and_two_pow_sub_one_eq_mod,
      Nat.and_assoc, show (2 ^ 12 - 1 : ℕ) &&& 0xFFFFFFFFFF000 = 0 from rfl, Nat.and_zero]
  have hshare (x : Shareability) : x.value <<< 10 &&& 0xFFFFFFFFFF000 = 0 := by cases x <;> rfl
  have hinner (x : Cacheability) : x.value <<< 59 &&& 0xFFFFFFFFFF000 = 0 := by cases x <;> rfl
  have houter (x : Cacheability) : x.value <<< 53 &&& 0xFFFFFFFFFF000 = 0 := by cases x <;> rfl
  refine ⟨_, rfl, ?_⟩
  simp only [Nat.and_or_distrib_right, hkeep (x := notW 64 0xFF) rfl,
    hkeep (x := notW 64 (3 <<< 10)) rfl,
    hkeep (x := notW 64 (7 <<< 59)) rfl, hkeep (x := notW 64 (7 <<< 53)) rfl, hold, hbase, hcount,
    hshare, hinner,
    houter, show 1 <<< 63 &&& 0xFFFFFFFFFF000 = 0 from rfl, Nat.zero_or, Nat.or_zero]

end Startup.Its
