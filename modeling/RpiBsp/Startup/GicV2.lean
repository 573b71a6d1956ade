import Mathlib.Data.List.Induction
import RpiBsp.Support.Registers

/-!
# Startup — GIC v2

The interrupt controller of the BCM2712: `gic_v2_init` sets up its distributor, and the callouts
mask and unmask the interrupts behind it.  The distributor keeps what it knows of an interrupt in
fields of words that the interrupt shares with others: some words are written as they are, and some
by addresses that set or clear bits.

* `Part`, `field` — what the distributor keeps of an interrupt, and where; `fields_distinct` says
that it keeps it apart;
* `lineOf_initWords` — what `gic_v2_init` leaves of the shared interrupts;
* `Op.lineOf_run` — what one request does: to its interrupt what it is for, and to no other
anything;
* `gic_v2_runs` — **main**: each interrupt is as the last request for it says, or else as
`init_intrinfo` left it.
-/

namespace Startup.GicV2

open Support

/-! ### The distributor -/

/-- What a write sets or clears, and what it stores. -/
inductive Bank where
  | enable
  | pend
  | plain
  deriving DecidableEq, Repr

/-- The words of the distributor; those of `plain` by offset. -/
abbrev Gicd := Bank × ℕ → BitVec 32

def ARM_GICD_CTLR : ℕ := 0x0000
def ARM_GICD_TYPER : ℕ := 0x0004
def ARM_GICD_ISENABLERn : ℕ := 0x0100
def ARM_GICD_ICENABLERn : ℕ := 0x0180
def ARM_GICD_ICPENDRn : ℕ := 0x0280
def ARM_GICD_IPRIORITYn : ℕ := 0x0400
def ARM_GICD_ITARGETSRn : ℕ := 0x0800
def ARM_GICD_ICFGRn : ℕ := 0x0C00

def ARM_GICD_CTLR_EN : BitVec 32 := 1
def ARM_GICD_TYPER_ITLN : BitVec 32 := 0x1f

def in32 (addr : ℕ) (m : Gicd) : BitVec 32 := m (.plain, addr)

def out32 (addr : ℕ) (v : BitVec 32) (m : Gicd) : Gicd :=
  if 0x100 ≤ addr ∧ addr < 0x180 then
    Function.update m (.enable, (addr - 0x100) / 4) (m (.enable, (addr - 0x100) / 4) ||| v)
  else if 0x180 ≤ addr ∧ addr < 0x200 then
    Function.update m (.enable, (addr - 0x180) / 4) (m (.enable, (addr - 0x180) / 4) &&& ~~~v)
  else if 0x280 ≤ addr ∧ addr < 0x300 then
    Function.update m (.pend, (addr - 0x280) / 4) (m (.pend, (addr - 0x280) / 4) &&& ~~~v)
  else Function.update m (.plain, addr) v

/-! ### The program -/

/-- What `i` goes through in `for (i = first; i < last; i += by)`. -/
def rounds (first last stride : ℕ) : List ℕ :=
  (List.range ((last - first + (stride - 1)) / stride)).map fun k => first + stride * k

def forBy (first last stride : ℕ) (body : ℕ → Gicd → Gicd) (m : Gicd) : Gicd :=
  (rounds first last stride).foldl (fun m i => body i m) m

/-- The place of the processor among the targets; `none` is a crash. -/
def gic_v2_cpunum (num_cpu : ℕ) (m : Gicd) : Option ℕ :=
  let mask := in32 ARM_GICD_ITARGETSRn m &&& 0xff
  if mask = 0 ∧ num_cpu = 1 then some 0 else (List.range 8).find? fun i => mask = 1#32 <<< i

/-- `itn`. -/
def gic_v2_num_spis (m : Gicd) : ℕ :=
  ((in32 ARM_GICD_TYPER m &&& ARM_GICD_TYPER_ITLN).toNat + 1) * 32

def last_spi (m : Gicd) : ℕ := 32 + (min 1020 (gic_v2_num_spis m) - 32)

/-- The words that `gic_v2_init` writes, for processor `gic_cpu`. -/
def initWords (gic_cpu : ℕ) (m : Gicd) : Gicd :=
  let m := out32 ARM_GICD_CTLR 0 m
  let itn := gic_v2_num_spis m
  let last_spi := last_spi m
  let m := forBy 32 itn 32 (fun i m =>
    out32 (ARM_GICD_ICPENDRn + i * 4 / 32) 0xffffffff
      (out32 (ARM_GICD_ICENABLERn + i * 4 / 32) 0xffffffff m)) m
  let m := forBy 8 last_spi 4 (fun i => out32 (ARM_GICD_IPRIORITYn + i) 0xa0a0a0a0) m
  let m := forBy 32 last_spi 4
    (fun i => out32 (ARM_GICD_ITARGETSRn + i) (0x01010101#32 <<< gic_cpu)) m
  let m := forBy 16 itn 16 (fun i => out32 (ARM_GICD_ICFGRn + i * 4 / 16) 0) m
  out32 ARM_GICD_CTLR ARM_GICD_CTLR_EN m

def gic_v2_init (num_cpu : ℕ) (m : Gicd) : Option Gicd :=
  (gic_v2_cpunum num_cpu m).map fun gic_cpu => initWords gic_cpu m

def gic_v2_set_intr_trig_mode (irq : ℕ) (edge : Bool) (m : Gicd) : Gicd :=
  if irq ≥ 32 ∧ irq < gic_v2_num_spis m + 32 then
    let mask := 0x2#32 <<< (irq % 16 * 2)
    let off := irq / 16 * 4
    let val := in32 (ARM_GICD_ICFGRn + off) m
    out32 (ARM_GICD_ICFGRn + off) (if edge then val ||| mask else val &&& ~~~mask) m
  else m

def PCIE_EXT_IRQ_0 : ℕ := 287
def PCIE_EXT_IRQ_NUM : ℕ := 8

def init_intrinfo (num_cpu : ℕ) (m : Gicd) : Option Gicd :=
  (gic_v2_init num_cpu m).map fun m =>
    (List.range PCIE_EXT_IRQ_NUM).foldl
      (fun m i => gic_v2_set_intr_trig_mode (PCIE_EXT_IRQ_0 + i) true m) m

/-- A bit for vector `w1` is written behind `reg`. -/
def writeBit (reg w1 : ℕ) : Gicd → Gicd := out32 (reg + w1 / 32 * 4) (1#32 <<< (w1 % 32))

def interrupt_mask_gic_v2_ppi (x1 : ℕ) : Gicd → Gicd := writeBit ARM_GICD_ICENABLERn x1
def interrupt_unmask_gic_v2_ppi (x1 : ℕ) : Gicd → Gicd := writeBit ARM_GICD_ISENABLERn x1
def interrupt_mask_gic_v2_spi (x1 : ℕ) : Gicd → Gicd := writeBit ARM_GICD_ICENABLERn (x1 + 32)
def interrupt_unmask_gic_v2_spi (x1 : ℕ) : Gicd → Gicd := writeBit ARM_GICD_ISENABLERn (x1 + 32)

/-! ### Where an interrupt is -/

/-- What the distributor keeps of an interrupt. -/
inductive Part where
  | enabled
  | pending
  | priority
  | target
  | edge
  deriving DecidableEq

/-- An interrupt, by the number that the controller has for it. -/
abbrev Id := Fin 1024

def field (n : Id) : Part → BitField (Bank × ℕ)
  | .enabled => ⟨(.enable, n.val / 32), n.val % 32, 1, by omega⟩
  | .pending => ⟨(.pend, n.val / 32), n.val % 32, 1, by omega⟩
  | .priority => ⟨(.plain, ARM_GICD_IPRIORITYn + n.val / 4 * 4), n.val % 4 * 8, 8, by omega⟩
  | .target => ⟨(.plain, ARM_GICD_ITARGETSRn + n.val / 4 * 4), n.val % 4 * 8, 8, by omega⟩
  | .edge => ⟨(.plain, ARM_GICD_ICFGRn + n.val / 16 * 4), n.val % 16 * 2 + 1, 1, by omega⟩

def fields (n : Id) (k : Part) : Option (BitField (Bank × ℕ)) := some (field n k)

/-- What the parts of an interrupt hold. -/
abbrev Line := Part → BitVec 32

def lineOf (m : Gicd) (n : Id) : Line := parts fields m n

/-- No two interrupts share a bit of the distributor. -/
theorem fields_distinct : Distinct fields := by
  intro n n' k k' f f' hf hf' h
  cases hf
  cases hf'
  have hn := n.isLt
  have hn' := n'.isLt
  have hne : n.val ≠ n'.val ∨ k ≠ k' := h.imp_left fun hne heq => hne (Fin.ext heq)
  unfold BitField.Apart
  cases k <;> cases k' <;>
    simp only [field, ne_eq, Prod.mk.injEq, reduceCtorEq, false_and, not_false_eq_true, true_or,
      true_and, not_true_eq_false,
      or_false, ARM_GICD_IPRIORITYn, ARM_GICD_ITARGETSRn, ARM_GICD_ICFGRn] at hne ⊢ <;>
    omega

/-! ### Behind the start -/

theorem mem_rounds {first last stride i : ℕ} (hstride : 0 < stride) :
    i ∈ rounds first last stride ↔ first ≤ i ∧ i < last ∧ stride ∣ i - first := by
  simp only [rounds, List.mem_map, List.mem_range]
  constructor
  · rintro ⟨k, hk, rfl⟩
    have hlt := (Nat.le_div_iff_mul_le hstride).mp hk
    rw [Nat.succ_mul, Nat.mul_comm] at hlt
    exact ⟨by omega, by omega, k, by omega⟩
  · rintro ⟨hle, hlt, k, hk⟩
    refine ⟨k, (Nat.le_div_iff_mul_le hstride).mpr ?_, by omega⟩
    rw [Nat.succ_mul, Nat.mul_comm]
    omega

theorem out32_plain {addr : ℕ} (h : addr < 0x100 ∨ 0x400 ≤ addr) (v : BitVec 32) (m : Gicd) :
    out32 addr v m = Function.update m (.plain, addr) v := by
  unfold out32
  rw [if_neg (by omega), if_neg (by omega), if_neg (by omega)]

/-- A loop that writes one value to words that are stored. -/
theorem forBy_plain {base first last stride : ℕ} {offset : ℕ → ℕ} (hbase : 0x400 ≤ base)
    (v : BitVec 32) (m : Gicd) (r : Bank × ℕ) :
    forBy first last stride (fun i => out32 (base + offset i) v) m r =
      if ∃ i ∈ rounds first last stride, r = (.plain, base + offset i) then v else m r := by
  refine foldl_fill (S := fun i r => r = (.plain, base + offset i)) (fun i _ m r => ?_) m r
  rw [out32_plain (by omega)]
  exact Function.update_apply m _ v r

/-- The loop that disables the interrupts and clears what is pending. -/
theorem forBy_disable {last : ℕ} (hlast : last ≤ 1024) (m : Gicd) (r : Bank × ℕ) :
    forBy 32 last 32 (fun i m =>
        out32 (ARM_GICD_ICPENDRn + i * 4 / 32) 0xffffffff
          (out32 (ARM_GICD_ICENABLERn + i * 4 / 32) 0xffffffff m)) m r =
      if ∃ i ∈ rounds 32 last 32, r = (.enable, i / 32) ∨ r = (.pend, i / 32) then 0 else m r := by
  refine foldl_fill (S := fun i r => r = (.enable, i / 32) ∨ r = (.pend, i / 32))
    (fun i hi m r => ?_) m r
  obtain ⟨hle, hlt, k, hk⟩ := (mem_rounds (by omega)).mp hi
  have hfour : i * 4 / 32 = 4 * (i / 32) := by omega
  have henable : (ARM_GICD_ICENABLERn + 4 * (i / 32) - 0x180) / 4 = i / 32 := by
    rw [ARM_GICD_ICENABLERn, Nat.add_sub_cancel_left, Nat.mul_div_cancel_left _ (by omega)]
  have hpend : (ARM_GICD_ICPENDRn + 4 * (i / 32) - 0x280) / 4 = i / 32 := by
    rw [ARM_GICD_ICPENDRn, Nat.add_sub_cancel_left, Nat.mul_div_cancel_left _ (by omega)]
  have hzero : ∀ w : BitVec 32, w &&& ~~~(0xffffffff : BitVec 32) = 0 := fun w => BitVec.and_zero
  rw [hfour]
  unfold out32
  rw [if_neg (by unfold ARM_GICD_ICPENDRn; omega), if_neg (by unfold ARM_GICD_ICPENDRn; omega),
    if_pos (by unfold ARM_GICD_ICPENDRn; omega), if_neg (by unfold ARM_GICD_ICENABLERn; omega),
    if_pos (by unfold ARM_GICD_ICENABLERn; omega), henable, hpend, hzero, hzero,
    Function.update_apply,
    Function.update_apply]
  by_cases hp : r = (.pend, i / 32)
  · rw [if_pos hp, if_pos (.inr hp)]
  · rw [if_neg hp]
    by_cases he : r = (.enable, i / 32)
    · rw [if_pos he, if_pos (.inl he)]
    · rw [if_neg he, if_neg (not_or.mpr ⟨he, hp⟩)]

theorem gic_v2_num_spis_le (m : Gicd) : gic_v2_num_spis m ≤ 1024 := by
  have h : (in32 ARM_GICD_TYPER m &&& ARM_GICD_TYPER_ITLN).toNat ≤ 31 := by
    rw [BitVec.toNat_and]
    exact Nat.and_le_right
  unfold gic_v2_num_spis
  omega

/-- How a shared interrupt is behind `gic_v2_init`: disabled, for processor `gic_cpu`, and
level-triggered. -/
def ready (gic_cpu : ℕ) : Line
  | .enabled => 0
  | .pending => 0
  | .priority => 0xa0
  | .target => 1#32 <<< gic_cpu
  | .edge => 0

section Shared

variable {n : Id} (k : Part)

/-- Of which part a word is that is stored. -/
theorem part_of_reg {base off : ℕ} (hoff : off < 1024)
    (h : (field n k).reg = (.plain, base + off)) :
    (base = ARM_GICD_IPRIORITYn → k = .priority) ∧ (base = ARM_GICD_ITARGETSRn → k = .target) ∧
      (base = ARM_GICD_ICFGRn → k = .edge) := by
  have hn := n.isLt
  cases k <;>
    simp only [field, Prod.mk.injEq, true_and, reduceCtorEq, false_and, imp_false, implies_true,
      and_true, ARM_GICD_IPRIORITYn, ARM_GICD_ITARGETSRn, ARM_GICD_ICFGRn] at h ⊢ <;>
    omega

theorem priority_hit {last : ℕ} (hn : 32 ≤ n.val ∧ n.val < last) (hlast : last ≤ 1024) :
    (∃ i ∈ rounds 8 last 4, (field n k).reg = (.plain, ARM_GICD_IPRIORITYn + i)) ↔
    k = .priority := by
  constructor
  · rintro ⟨i, hi, hreg⟩
    have hlt := ((mem_rounds (by decide)).mp hi).2.1
    exact (part_of_reg k (by omega) hreg).1 rfl
  · rintro rfl
    exact ⟨n.val / 4 * 4, (mem_rounds (by decide)).mpr (by omega), rfl⟩

theorem target_hit {last : ℕ} (hn : 32 ≤ n.val ∧ n.val < last) (hlast : last ≤ 1024) :
    (∃ i ∈ rounds 32 last 4, (field n k).reg = (.plain, ARM_GICD_ITARGETSRn + i)) ↔
    k = .target := by
  constructor
  · rintro ⟨i, hi, hreg⟩
    have hlt := ((mem_rounds (by decide)).mp hi).2.1
    exact (part_of_reg k (by omega) hreg).2.1 rfl
  · rintro rfl
    exact ⟨n.val / 4 * 4, (mem_rounds (by decide)).mpr (by omega), rfl⟩

theorem edge_hit {last : ℕ} (hn : 32 ≤ n.val ∧ n.val < last) (hlast : last ≤ 1024) :
    (∃ i ∈ rounds 16 last 16, (field n k).reg = (.plain, ARM_GICD_ICFGRn + i * 4 / 16)) ↔
    k = .edge := by
  constructor
  · rintro ⟨i, hi, hreg⟩
    have hlt := ((mem_rounds (by decide)).mp hi).2.1
    exact (part_of_reg k (by omega) hreg).2.2 rfl
  · rintro rfl
    refine ⟨n.val / 16 * 16, (mem_rounds (by decide)).mpr (by omega), ?_⟩
    rw [field, show n.val / 16 * 16 * 4 / 16 = n.val / 16 * 4 by omega]

theorem disable_hit {last : ℕ} (hn : 32 ≤ n.val ∧ n.val < last) :
    (∃ i ∈ rounds 32 last 32, (field n k).reg = (.enable, i / 32) ∨
      (field n k).reg = (.pend, i / 32)) ↔
      k = .enabled ∨ k = .pending := by
  have hmem : n.val / 32 * 32 ∈ rounds 32 last 32 := (mem_rounds (by decide)).mpr (by omega)
  have hword : n.val / 32 * 32 / 32 = n.val / 32 := by omega
  constructor
  · rintro ⟨i, -, hreg⟩
    cases k <;> simp [field] at hreg ⊢
  · rintro (rfl | rfl)
    · exact ⟨_, hmem, .inl (by rw [field, hword])⟩
    · exact ⟨_, hmem, .inr (by rw [field, hword])⟩

theorem initWords_shared {gic_cpu : ℕ} (m : Gicd) (hn : 32 ≤ n.val ∧ n.val < last_spi m) :
    initWords gic_cpu m (field n k).reg =
      match k with
      | .enabled => 0
      | .pending => 0
      | .priority => 0xa0a0a0a0
      | .target => 0x01010101#32 <<< gic_cpu
      | .edge => 0 := by
  have hitn := gic_v2_num_spis_le m
  have hlast : last_spi m ≤ gic_v2_num_spis m := by
    unfold last_spi gic_v2_num_spis
    omega
  have hn' : 32 ≤ n.val ∧ n.val < gic_v2_num_spis m := ⟨hn.1, hn.2.trans_le hlast⟩
  have hctlr : (field n k).reg ≠ (.plain, ARM_GICD_CTLR) := by
    cases k <;> simp [field, ARM_GICD_CTLR, ARM_GICD_IPRIORITYn, ARM_GICD_ITARGETSRn,
      ARM_GICD_ICFGRn]
  simp only [initWords, show gic_v2_num_spis (out32 ARM_GICD_CTLR 0 m) = gic_v2_num_spis m from rfl,
    show last_spi (out32 ARM_GICD_CTLR 0 m) = last_spi m from rfl]
  rw [out32_plain (by decide), Function.update_of_ne hctlr, forBy_plain (by decide),
    forBy_plain (by decide), forBy_plain (by decide), forBy_disable hitn]
  simp only [edge_hit k hn' hitn, target_hit k hn (hlast.trans hitn),
    priority_hit k hn (hlast.trans hitn), disable_hit k hn']
  cases k <;> simp

end Shared

theorem num_spis_initWords (gic_cpu : ℕ) (m : Gicd) :
    gic_v2_num_spis (initWords gic_cpu m) = gic_v2_num_spis m := by
  have hstored : ∀ base first last stride (offset : ℕ → ℕ), 0x400 ≤ base →
      ¬ ∃ i ∈ rounds first last stride, ((.plain, ARM_GICD_TYPER) : Bank × ℕ) =
        (.plain, base + offset i) := by
    rintro base first last stride offset hbase ⟨i, -, h⟩
    simp only [Prod.mk.injEq, true_and, ARM_GICD_TYPER] at h
    omega
  have hbits : ∀ last, ¬ ∃ i ∈ rounds 32 last 32,
      ((.plain, ARM_GICD_TYPER) : Bank × ℕ) = (.enable, i / 32) ∨
      ((.plain, ARM_GICD_TYPER) : Bank × ℕ) = (.pend, i / 32) := by
    rintro last ⟨i, -, h⟩
    simp at h
  have htyper : initWords gic_cpu m (.plain, ARM_GICD_TYPER) = m (.plain, ARM_GICD_TYPER) := by
    rw [initWords, out32_plain (by decide), Function.update_of_ne (by decide),
      forBy_plain (by decide),
      if_neg (hstored _ _ _ _ _ (by decide)), forBy_plain (by decide),
      if_neg (hstored ARM_GICD_ITARGETSRn _ _ _ (fun i => i) (by decide)), forBy_plain (by decide),
      if_neg (hstored ARM_GICD_IPRIORITYn _ _ _ (fun i => i) (by decide)),
      forBy_disable (gic_v2_num_spis_le _), if_neg (hbits _)]
    rfl
  rw [gic_v2_num_spis, in32, htyper]
  rfl

/-- The shared interrupts behind `gic_v2_init`. -/
theorem lineOf_initWords {gic_cpu : ℕ} (hcpu : gic_cpu < 8) (m : Gicd) {n : Id}
    (hn : 32 ≤ n.val ∧ n.val < last_spi m) : lineOf (initWords gic_cpu m) n = ready gic_cpu := by
  have hbyte : ∀ j < 4, ∀ g < (8 : ℕ), (0x01010101#32 <<< g >>> (j * 8)) &&& lowMask 8 = 1#32 <<<
    g := by decide
  have hpriority : ∀ j < 4, (0xa0a0a0a0#32 >>> (j * 8)) &&& lowMask 8 = 0xa0 := by decide
  funext k
  rw [lineOf, parts, fields, Option.elim_some, BitField.read, initWords_shared k m hn]
  cases k with
  | enabled => simp [ready]
  | pending => simp [ready]
  | priority => exact hpriority _ (by omega)
  | target => exact hbyte _ (by omega) _ hcpu
  | edge => simp [ready]

/-! ### Requests -/

/-- What the kernel asks the callouts for, and a board `gic_v2_set_intr_trig_mode`. -/
inductive Op where
  | mask_ppi (x1 : ℕ)
  | unmask_ppi (x1 : ℕ)
  | mask_spi (x1 : ℕ)
  | unmask_spi (x1 : ℕ)
  | trig_mode (irq : ℕ) (edge : Bool)
  deriving DecidableEq, Repr

def Op.run : Op → Gicd → Gicd
  | .mask_ppi x1 => interrupt_mask_gic_v2_ppi x1
  | .unmask_ppi x1 => interrupt_unmask_gic_v2_ppi x1
  | .mask_spi x1 => interrupt_mask_gic_v2_spi x1
  | .unmask_spi x1 => interrupt_unmask_gic_v2_spi x1
  | .trig_mode irq edge => gic_v2_set_intr_trig_mode irq edge

/-- The vectors that the entries of `add_interrupt` have. -/
def Op.Valid : Op → Prop
  | .mask_ppi x1 | .unmask_ppi x1 => x1 < 32
  | .mask_spi x1 | .unmask_spi x1 => x1 + 32 < 1024
  | .trig_mode _ _ => True

/-- What a request writes to part `k` of interrupt `n`, where the controller has `itn`
interrupts. -/
def Op.writes (itn : ℕ) (n : Id) (k : Part) : Op → Option (BitVec 32)
  | .mask_ppi x1 => if n.val = x1 ∧ k = .enabled then some 0 else none
  | .unmask_ppi x1 => if n.val = x1 ∧ k = .enabled then some 1 else none
  | .mask_spi x1 => if n.val = x1 + 32 ∧ k = .enabled then some 0 else none
  | .unmask_spi x1 => if n.val = x1 + 32 ∧ k = .enabled then some 1 else none
  | .trig_mode irq edge =>
      if n.val = irq ∧ k = .edge ∧ 32 ≤ irq ∧ irq < itn + 32 then some (if edge then 1 else 0)
      else none

section Run

variable {itn : ℕ} {op : Op} {m : Gicd} (n : Id) (k : Part)

/-- A part of an interrupt is changed, and `n` is the interrupt or another. -/
theorem lineOf_of_sets {n' : Id} {k' : Part} {v : BitVec 32} {m' : Gicd}
    (h : Sets fields n' (fun x => Function.update x k' v) m m') :
    lineOf m' n k = (if n = n' ∧ k = k' then some v else none).getD (lineOf m n k) := by
  by_cases hn : n = n'
  · subst hn
    rw [lineOf, h.here, Function.update_apply]
    by_cases hk : k = k'
    · rw [if_pos hk, if_pos ⟨rfl, hk⟩, Option.getD_some]
    · rw [if_neg hk, if_neg fun h => hk h.2, Option.getD_none, lineOf]
  · rw [lineOf, h.other fields_distinct hn, if_neg fun h => hn h.1, Option.getD_none, lineOf]

theorem writeBit_clear {w1 : ℕ} (hw : w1 < 1024) (m : Gicd) :
    writeBit ARM_GICD_ICENABLERn w1 m = (field ⟨w1, hw⟩ .enabled).write 0 m := by
  have hword : (0x180 + w1 / 32 * 4 - 0x180) / 4 = w1 / 32 := by omega
  rw [writeBit, out32, ARM_GICD_ICENABLERn, if_neg (by omega), if_pos (by omega), hword,
    and_not_eq_putBits (by omega)]
  rfl

theorem writeBit_set {w1 : ℕ} (hw : w1 < 1024) (m : Gicd) :
    writeBit ARM_GICD_ISENABLERn w1 m = (field ⟨w1, hw⟩ .enabled).write 1 m := by
  have hword : (0x100 + w1 / 32 * 4 - 0x100) / 4 = w1 / 32 := by omega
  rw [writeBit, out32, ARM_GICD_ISENABLERn, if_pos (by omega), hword, or_eq_putBits (by omega)]
  rfl

theorem lineOf_mask {w1 : ℕ} (hw : w1 < 1024) :
    lineOf (writeBit ARM_GICD_ICENABLERn w1 m) n k =
      (if n.val = w1 ∧ k = .enabled then some 0 else none).getD (lineOf m n k) := by
  rw [writeBit_clear hw, lineOf_of_sets n k (sets_zero fields_distinct rfl m)]
  simp only [Fin.ext_iff]

theorem lineOf_unmask {w1 : ℕ} (hw : w1 < 1024) :
    lineOf (writeBit ARM_GICD_ISENABLERn w1 m) n k =
      (if n.val = w1 ∧ k = .enabled then some 1 else none).getD (lineOf m n k) := by
  rw [writeBit_set hw, lineOf_of_sets n k (sets_one fields_distinct rfl rfl m)]
  simp only [Fin.ext_iff]

theorem edge_write {irq : ℕ} (hirq : irq < 1024) (v : BitVec 32) (m : Gicd) :
    (field ⟨irq, hirq⟩ .edge).write v m = Function.update m (.plain, ARM_GICD_ICFGRn + irq / 16 * 4)
      (putBits (irq % 16 * 2 + 1) 1 v (m (.plain, ARM_GICD_ICFGRn + irq / 16 * 4))) := rfl

theorem lineOf_trig_mode {irq : ℕ} (edge : Bool) (hirq : 32 ≤ irq ∧ irq < gic_v2_num_spis m + 32) :
    lineOf (gic_v2_set_intr_trig_mode irq edge m) n k =
      (if n.val = irq ∧ k = .edge then some (if edge then 1 else 0) else none).getD
        (lineOf m n k) := by
  have hmask : 0x2#32 <<< (irq % 16 * 2) = 1#32 <<< (irq % 16 * 2 + 1) := by
    rw [Nat.add_comm, BitVec.shiftLeft_add]
    rfl
  rw [gic_v2_set_intr_trig_mode, if_pos hirq]
  simp only [in32]
  rw [out32_plain (by unfold ARM_GICD_ICFGRn; omega), hmask]
  by_cases hlt : irq < 1024
  · cases edge with
    | true =>
      rw [if_pos rfl, or_eq_putBits (by omega), ← edge_write hlt,
        lineOf_of_sets n k (sets_one fields_distinct rfl rfl m)]
      simp only [Fin.ext_iff, if_true]
    | false =>
      rw [if_neg Bool.false_ne_true, and_not_eq_putBits (by omega), ← edge_write hlt,
        lineOf_of_sets n k (sets_zero fields_distinct rfl m)]
      simp only [Fin.ext_iff, Bool.false_eq_true, if_false]
  · -- the word is behind those of the interrupts
    have hother : (field n k).reg ≠ (.plain, ARM_GICD_ICFGRn + irq / 16 * 4) := by
      intro h
      have hn := n.isLt
      cases k <;>
        simp only [field, Prod.mk.injEq, true_and, reduceCtorEq, false_and, ARM_GICD_IPRIORITYn,
          ARM_GICD_ITARGETSRn, ARM_GICD_ICFGRn] at h
      all_goals omega
    rw [if_neg (c := n.val = irq ∧ k = .edge) fun h => hlt (h.1 ▸ n.isLt), Option.getD_none]
    simp only [lineOf, parts, fields, Option.elim_some, BitField.read, Function.update_of_ne hother]

theorem Op.lineOf_run (h : op.Valid) :
    lineOf (op.run m) n k = (op.writes (gic_v2_num_spis m) n k).getD (lineOf m n k) := by
  cases op with
  | mask_ppi x1 => exact lineOf_mask n k (Nat.lt_trans h (by decide))
  | unmask_ppi x1 => exact lineOf_unmask n k (Nat.lt_trans h (by decide))
  | mask_spi x1 => exact lineOf_mask n k h
  | unmask_spi x1 => exact lineOf_unmask n k h
  | trig_mode irq edge =>
    rw [Op.run, Op.writes]
    by_cases hirq : 32 ≤ irq ∧ irq < gic_v2_num_spis m + 32
    · rw [lineOf_trig_mode n k edge hirq]
      simp only [hirq, and_self, and_true]
    · rw [gic_v2_set_intr_trig_mode, if_neg hirq, if_neg fun h => hirq h.2.2, Option.getD_none]

/-- The controller has as many interrupts as before. -/
theorem Op.num_spis_run (h : op.Valid) : gic_v2_num_spis (op.run m) = gic_v2_num_spis m := by
  have hkept : ∀ (r : Bank × ℕ) (v : BitVec 32), r ≠ (.plain, ARM_GICD_TYPER) →
      gic_v2_num_spis (Function.update m r v) = gic_v2_num_spis m := by
    intro r v hr
    rw [gic_v2_num_spis, in32, Function.update_of_ne hr.symm]
    rfl
  have hbit : ∀ {f : BitField (Bank × ℕ)} (v : BitVec 32), f.reg.1 = .enable →
      gic_v2_num_spis (f.write v m) = gic_v2_num_spis m := by
    intro f v hf
    refine hkept _ _ fun h => ?_
    rw [h] at hf
    exact absurd hf (by decide)
  cases op with
  | mask_ppi x1 =>
      exact (congrArg _ (writeBit_clear (Nat.lt_trans h (by decide)) m)).trans (hbit 0 rfl)
  | unmask_ppi x1 =>
      exact (congrArg _ (writeBit_set (Nat.lt_trans h (by decide)) m)).trans (hbit 1 rfl)
  | mask_spi x1 => exact (congrArg _ (writeBit_clear h m)).trans (hbit 0 rfl)
  | unmask_spi x1 => exact (congrArg _ (writeBit_set h m)).trans (hbit 1 rfl)
  | trig_mode irq edge =>
    rw [Op.run, gic_v2_set_intr_trig_mode]
    by_cases hirq : 32 ≤ irq ∧ irq < gic_v2_num_spis m + 32
    · rw [if_pos hirq]
      simp only
      rw [out32_plain (by unfold ARM_GICD_ICFGRn; omega)]
      refine hkept _ _ fun h => ?_
      simp only [Prod.mk.injEq, true_and, ARM_GICD_ICFGRn, ARM_GICD_TYPER] at h
      omega
    · rw [if_neg hirq]

end Run

/-- What the last of some requests for part `k` of interrupt `n` writes. -/
def lastWrite (itn : ℕ) (n : Id) (k : Part) (ops : List Op) : Option (BitVec 32) :=
  ops.foldl (fun said op => (op.writes itn n k).or said) none

def runAll (ops : List Op) (m : Gicd) : Gicd := ops.foldl (fun m op => op.run m) m

theorem lineOf_runAll {ops : List Op} (hops : ∀ op ∈ ops, op.Valid) (m : Gicd) (n : Id) (k : Part) :
    lineOf (runAll ops m) n k = (lastWrite (gic_v2_num_spis m) n k ops).getD (lineOf m n k) ∧
      gic_v2_num_spis (runAll ops m) = gic_v2_num_spis m := by
  induction ops using List.reverseRecOn with
  | nil => exact ⟨rfl, rfl⟩
  | append_singleton ops op ih =>
      obtain ⟨hline, hspis⟩ := ih fun o ho => hops o (List.mem_append_left _ ho)
      have hop : op.Valid := hops op (List.mem_append_right _ List.mem_cons_self)
      have hlast : lastWrite (gic_v2_num_spis m) n k (ops ++ [op]) =
          (op.writes (gic_v2_num_spis m) n k).or (lastWrite (gic_v2_num_spis m) n k ops) := by
        rw [lastWrite, List.foldl_append]
        rfl
      rw [runAll, List.foldl_append, List.foldl_cons, List.foldl_nil, ← runAll]
      refine ⟨?_, (Op.num_spis_run hop).trans hspis⟩
      rw [Op.lineOf_run n k hop, hline, hspis, hlast]
      cases op.writes (gic_v2_num_spis m) n k <;> rfl

/-! ### The runs -/

/-- The first of the interrupts of the PCIe extension port are made edge-triggered. -/
def edges (num : ℕ) : List Op := (List.range num).map fun i => .trig_mode (PCIE_EXT_IRQ_0 + i) true

theorem lastWrite_edges (itn : ℕ) (n : Id) (k : Part) (num : ℕ) :
    lastWrite itn n k (edges num) =
      if k = .edge ∧ PCIE_EXT_IRQ_0 ≤ n.val ∧ n.val < PCIE_EXT_IRQ_0 + num ∧ n.val < itn + 32 then
        some 1 else none := by
  induction num with
  | zero =>
      rw [if_neg (by omega)]
      rfl
  | succ num ih =>
      have hlast : lastWrite itn n k (edges (num + 1)) =
          ((Op.trig_mode (PCIE_EXT_IRQ_0 + num) true).writes itn n k).or
            (lastWrite itn n k (edges num)) := by
        rw [lastWrite, edges, List.range_succ, List.map_append, List.foldl_append]
        rfl
      rw [hlast, ih, Op.writes]
      by_cases hn : n.val = PCIE_EXT_IRQ_0 + num
      · by_cases hk : k = .edge ∧ n.val < itn + 32
        · rw [if_pos ⟨hn, hk.1, by unfold PCIE_EXT_IRQ_0; omega, by omega⟩, if_pos rfl,
            Option.some_or, if_pos ⟨hk.1, by omega, by omega, hk.2⟩]
        · rw [if_neg fun h => hk ⟨h.2.1, by omega⟩, if_neg fun h =>
            hk ⟨h.1, h.2.2.2⟩, if_neg fun h => hk ⟨h.1, h.2.2.2⟩]
          rfl
      · rw [if_neg fun h => hn h.1, Option.none_or]
        exact if_congr (and_congr_right' (by omega)) rfl rfl

theorem gic_v2_cpunum_lt {num_cpu gic_cpu : ℕ} {m : Gicd}
    (h : gic_v2_cpunum num_cpu m = some gic_cpu) : gic_cpu < 8 := by
  unfold gic_v2_cpunum at h
  simp only at h
  split_ifs at h
  · cases h
    decide
  · exact List.mem_range.mp (List.mem_of_find?_eq_some h)

/-- **The shared interrupts**: behind `init_intrinfo`, whatever is asked for and in whatever order,
each part of each interrupt is as the last request for it says, or else as `gic_v2_init` set it up:
disabled, not pending, of one priority, for the processor that started, and edge-triggered only at
the PCIe extension port. -/
theorem gic_v2_runs {num_cpu : ℕ} {m m' : Gicd} (h : init_intrinfo num_cpu m = some m')
    {ops : List Op} (hops : ∀ op ∈ ops, op.Valid) {n : Id} (hn : 32 ≤ n.val ∧ n.val < last_spi m) :
    ∃ gic_cpu, gic_v2_cpunum num_cpu m = some gic_cpu ∧
      ∀ k, lineOf (runAll ops m') n k =
        (lastWrite (gic_v2_num_spis m) n k ops).getD
          (if k = .edge ∧ 287 ≤ n.val ∧ n.val < 295 then 1 else ready gic_cpu k) := by
  obtain ⟨m₁, hinit, rfl⟩ := Option.map_eq_some_iff.mp h
  obtain ⟨gic_cpu, hcpu, rfl⟩ := Option.map_eq_some_iff.mp hinit
  refine ⟨gic_cpu, hcpu, fun k => ?_⟩
  have hspis := num_spis_initWords gic_cpu m
  have hedges : (List.range PCIE_EXT_IRQ_NUM).foldl
      (fun m i => gic_v2_set_intr_trig_mode (PCIE_EXT_IRQ_0 + i) true m)
      (initWords gic_cpu m) = runAll (edges PCIE_EXT_IRQ_NUM) (initWords gic_cpu m) := by
    rw [runAll, edges, List.foldl_map]
    rfl
  have hvalid : ∀ op ∈ edges PCIE_EXT_IRQ_NUM, op.Valid := by
    intro op hop
    obtain ⟨i, -, rfl⟩ := List.mem_map.mp hop
    trivial
  obtain ⟨hline, hspis'⟩ := lineOf_runAll hvalid (initWords gic_cpu m) n k
  rw [hedges, (lineOf_runAll hops _ n k).1, hspis', hspis, hline, hspis, lastWrite_edges,
    lineOf_initWords (gic_v2_cpunum_lt hcpu) m hn]
  have hlt : n.val < gic_v2_num_spis m + 32 := by
    have := hn.2
    unfold last_spi at this
    omega
  congr 1
  by_cases hk : k = .edge ∧ 287 ≤ n.val ∧ n.val < 295
  · rw [if_pos hk, if_pos ⟨hk.1, hk.2.1, hk.2.2, hlt⟩, Option.getD_some]
  · rw [if_neg hk, if_neg fun h => hk ⟨h.1, h.2.1, h.2.2.1⟩, Option.getD_none]

/-- A controller of 320 interrupts, started on the processor of place 0. -/
def gic400 : Gicd := fun r =>
  if r = (.plain, ARM_GICD_TYPER) then 9 else if r = (.plain, ARM_GICD_ITARGETSRn) then
    0x01010101 else 0

/-- An interrupt of the port is unmasked, and its neighbour is masked behind it. -/
theorem gic_v2_runs_port :
    ∃ m', init_intrinfo 4 gic400 = some m' ∧
      lineOf (runAll [.unmask_spi 256, .mask_spi 257] m') 288 .enabled = 1 ∧
      lineOf (runAll [.unmask_spi 256, .mask_spi 257] m') 288 .target = 1 ∧
      lineOf (runAll [.unmask_spi 256, .mask_spi 257] m') 288 .edge = 1 := by
  have hcpu : gic_v2_cpunum 4 gic400 = some 0 := by decide
  have hinit : init_intrinfo 4 gic400 = some ((List.range PCIE_EXT_IRQ_NUM).foldl
      (fun m i => gic_v2_set_intr_trig_mode (PCIE_EXT_IRQ_0 + i) true m) (initWords 0 gic400)) := by
    rw [init_intrinfo, gic_v2_init, hcpu]
    rfl
  have hvalid : ∀ op ∈ [Op.unmask_spi 256, .mask_spi 257], op.Valid := by simp [Op.Valid]
  obtain ⟨gic_cpu, h, hparts⟩ := gic_v2_runs hinit hvalid (n := 288) (by decide)
  cases hcpu.symm.trans h
  refine ⟨_, hinit, ?_, ?_, ?_⟩
  · rw [hparts]
    decide
  · rw [hparts]
    decide
  · rw [hparts]
    decide

end Startup.GicV2
