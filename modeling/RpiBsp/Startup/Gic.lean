import Mathlib.Algebra.BigOperators.Group.List.Basic
import Mathlib.Algebra.GroupWithZero.Nat
import Mathlib.Algebra.Ring.Int.Defs
import Mathlib.Data.List.Induction
import Mathlib.Logic.Function.Basic
import Mathlib.Order.CompletePartialOrder
import Mathlib.Tactic.Common

/-!
# Startup — GIC — interrupt entries

A board tells the GIC which ranges of interrupt vectors it uses, one entry at a time: shared
interrupts (SPIs), extended ones (ESPIs) and message based ones (LPIs).  `gic_v3_spi_add_entry` and
its two siblings check an entry against those of its class and record where it is.

* `add_cases` — what a call does: it refuses and changes nothing, or it records the entry at the end
of its table;
* `Inv.add` — one call keeps the tables in order, unless it takes an entry that is empty or goes
past `2 ^ 32`;
* `entries_run` — **main**: the same for every run, and no refused call changes anything.
-/

namespace Startup

namespace Gic

/-- The callouts of the entries. -/
inductive Callout where
  | interrupt_id_gic_v3_spi
  | interrupt_id_gic_v3_espi
  | interrupt_id_gic_v3_lpi
  | interrupt_eoi_gic_v3_spi_sr
  | interrupt_eoi_gic_v3_lpi_sr
  | interrupt_mask_gic_v3_spi
  | interrupt_unmask_gic_v3_spi
  | interrupt_mask_gic_v3_espi
  | interrupt_unmask_gic_v3_espi
  | interrupt_mask_gic_v3_lpi_its
  | interrupt_unmask_gic_v3_lpi_its
  | interrupt_mask_gic_v3_lpi_direct
  | interrupt_unmask_gic_v3_lpi_direct
deriving DecidableEq, Repr

structure StartupIntrgen where
  genflags : BitVec 16
  size : BitVec 16
  rtn : Option Callout
deriving DecidableEq, Repr

structure StartupIntrinfo where
  vector_base : BitVec 32
  num_vectors : BitVec 32
  cascade_vector : BitVec 32
  cpu_intr_base : BitVec 32
  cpu_intr_stride : BitVec 16
  flags : BitVec 16
  id : StartupIntrgen
  eoi : StartupIntrgen
  mask : Option Callout
  unmask : Option Callout
deriving DecidableEq, Repr

/-- What the calls read and do not change: registers of the GIC, and two constants of the system's
headers. -/
structure Machine where
  base_addresses_initialized : Bool
  gicd_typer : BitVec 32
  lpi_uses_its : Bool
  INTR_FLAG_MSI : BitVec 16
  NTO_INTR_SPARE : BitVec 32
deriving DecidableEq, Repr

inductive Class where
  | spi
  | espi
  | lpi
deriving DecidableEq, Repr

/-- The entries of the board, by address, and the tables of those that were added. -/
structure Tables where
  mem : ℕ → StartupIntrinfo
  intrinfo : Class → List ℕ
  num_lpis : BitVec 32

def ARM_GIC_SPI_MIN_IRQ : BitVec 32 := 32
def ARM_GIC_SPI_MAX_IRQ : BitVec 32 := 1019
def ARM_GIC_ESPI_MIN_IRQ : BitVec 32 := 4096
def ARM_GIC_ESPI_MAX_IRQ : BitVec 32 := 5119
def ARM_GIC_LPI_MIN_IRQ : BitVec 32 := 8192
def GICD_TYPER_ESPI : BitVec 32 := (1 : BitVec 32) <<< 8
def GICD_TYPER_MBIS : BitVec 32 := (1 : BitVec 32) <<< 16
def GICD_TYPER_LPIS : BitVec 32 := (1 : BitVec 32) <<< 17
def NUM_ELTS : ℕ := 16

def gic_v3_num_spis (m : Machine) : BitVec 32 :=
  let ITLines := m.gicd_typer &&& 0x1f
  if (ITLines + 1) * 32 > ARM_GIC_SPI_MAX_IRQ + 1 then ARM_GIC_SPI_MAX_IRQ + 1 - 32
  else ITLines * 32

def gic_v3_num_espis (m : Machine) : BitVec 32 :=
  if m.gicd_typer &&& GICD_TYPER_ESPI ≠ 0 then
    (32 : BitVec 32) * (((m.gicd_typer &&& ((0x1f : BitVec 32) <<< 27)) >>> 27) + 1)
  else 0

/-- The shift by 32 that the largest values of the two fields ask for is not defined in C; here it
gives 0. -/
def gic_v3_num_lpis (m : Machine) : BitVec 32 :=
  let nlpi := (m.gicd_typer >>> 11) &&& 0x1f
  if m.gicd_typer &&& GICD_TYPER_LPIS = 0 then 0
  else if nlpi = 0 then
    ((1 : BitVec 32) <<< (((m.gicd_typer >>> 19) &&& 0x1f) + 1).toNat) - ARM_GIC_LPI_MIN_IRQ
  else (1 : BitVec 32) <<< (nlpi + 1).toNat

namespace StartupIntrinfo

/-- `new_last`, `cur_last`: the last vector, with the wrap-around of an empty entry. -/
def last (e : StartupIntrinfo) : BitVec 32 := e.vector_base + e.num_vectors - 1

end StartupIntrinfo

/-- The check of a new entry against a recorded one, for SPIs and ESPIs. -/
def clash (new cur : StartupIntrinfo) : Bool :=
  (new.vector_base ≥ cur.vector_base && new.vector_base ≤ cur.last) ||
    (new.last ≥ cur.vector_base && new.last ≤ cur.last) || new.vector_base ≤ cur.last

/-- The same for LPIs, where the second test looks at the first vector twice. -/
def clash_lpi (new cur : StartupIntrinfo) : Bool :=
  (new.vector_base ≥ cur.vector_base && new.vector_base ≤ cur.last) ||
    (new.last ≥ cur.vector_base && new.vector_base ≤ cur.last) || new.vector_base ≤ cur.last

/-- Message based vectors are asked for and not there. -/
def noMessages (m : Machine) (e : StartupIntrinfo) : Bool :=
  e.flags &&& m.INTR_FLAG_MSI ≠ 0 && m.gicd_typer &&& GICD_TYPER_MBIS = 0

def establish (m : Machine) (id eoi mask unmask : Callout) (e : StartupIntrinfo) :
    StartupIntrinfo :=
  { e with
    cascade_vector := m.NTO_INTR_SPARE
    cpu_intr_base := 0
    cpu_intr_stride := 0
    id := ⟨0, 0, some id⟩
    eoi := ⟨0, 0, some eoi⟩
    mask := some mask
    unmask := some unmask }

/-- The entry at `p` becomes `e` and the last one of its class. -/
def record (c : Class) (p : ℕ) (e : StartupIntrinfo) (t : Tables) : Tables :=
  { t with
    mem := Function.update t.mem p e
    intrinfo := Function.update t.intrinfo c (t.intrinfo c ++ [p]) }

/-- `none` is a failed assertion, which ends the startup program. -/
def gic_v3_spi_add_entry (m : Machine) (p : ℕ) (t : Tables) : Option (ℤ × Tables) :=
  let e := t.mem p
  if ¬ (m.base_addresses_initialized ∧ (t.intrinfo .spi).length < NUM_ELTS ∧
      e.vector_base ≥ ARM_GIC_SPI_MIN_IRQ ∧ e.vector_base ≤ ARM_GIC_SPI_MAX_IRQ ∧
      e.vector_base + e.num_vectors ≤ gic_v3_num_spis m + ARM_GIC_SPI_MIN_IRQ) then none
  else if e.last ≥ gic_v3_num_spis m + ARM_GIC_SPI_MIN_IRQ then some (-1, t)
  else if noMessages m e then some (-1, t)
  else if (t.intrinfo .spi).any fun q => clash e (t.mem q) then some (-1, t)
  else some (0, record .spi p (establish m .interrupt_id_gic_v3_spi .interrupt_eoi_gic_v3_spi_sr
    .interrupt_mask_gic_v3_spi .interrupt_unmask_gic_v3_spi e) t)

def gic_v3_espi_add_entry (m : Machine) (p : ℕ) (t : Tables) : Option (ℤ × Tables) :=
  let e := t.mem p
  if ¬ (m.base_addresses_initialized ∧ (t.intrinfo .espi).length < NUM_ELTS ∧
      e.vector_base ≥ ARM_GIC_ESPI_MIN_IRQ ∧ e.vector_base ≤ ARM_GIC_ESPI_MAX_IRQ ∧
      e.vector_base + e.num_vectors ≤ gic_v3_num_espis m + ARM_GIC_ESPI_MIN_IRQ) then none
  else if gic_v3_num_espis m = 0 then some (-1, t)
  else if e.last ≥ gic_v3_num_espis m + ARM_GIC_ESPI_MIN_IRQ then some (-1, t)
  else if noMessages m e then some (-1, t)
  else if (t.intrinfo .espi).any fun q => clash e (t.mem q) then some (-1, t)
  -- the same end-of-interrupt callout as for SPIs
  else some (0, record .espi p (establish m .interrupt_id_gic_v3_espi .interrupt_eoi_gic_v3_spi_sr
    .interrupt_mask_gic_v3_espi .interrupt_unmask_gic_v3_espi e) t)

def gic_v3_lpi_add_entry (m : Machine) (p : ℕ) (t : Tables) : Option (ℤ × Tables) :=
  let e := t.mem p
  if ¬ (m.base_addresses_initialized ∧ (t.intrinfo .lpi).length < NUM_ELTS ∧
      e.vector_base ≥ ARM_GIC_LPI_MIN_IRQ ∧
      e.vector_base + e.num_vectors - ARM_GIC_LPI_MIN_IRQ ≤ gic_v3_num_lpis m) then none
  else if e.last ≥ gic_v3_num_lpis m + ARM_GIC_LPI_MIN_IRQ then some (-1, t)
  else if (t.intrinfo .lpi).any fun q => clash_lpi e (t.mem q) then some (-1, t)
  else
    let e' := if m.lpi_uses_its then
        establish m .interrupt_id_gic_v3_lpi .interrupt_eoi_gic_v3_lpi_sr
          .interrupt_mask_gic_v3_lpi_its .interrupt_unmask_gic_v3_lpi_its e
      else
        establish m .interrupt_id_gic_v3_lpi .interrupt_eoi_gic_v3_lpi_sr
          .interrupt_mask_gic_v3_lpi_direct .interrupt_unmask_gic_v3_lpi_direct e
    let num_lpis := t.num_lpis + e.num_vectors
    if ¬ num_lpis ≤ gic_v3_num_lpis m then none
    else some (0, { record .lpi p e' t with num_lpis := num_lpis })

/-! ### Runs -/

/-- What happens to the entries: the board fills one in, or adds one to a class. -/
inductive Op where
  | fill (p : ℕ) (e : StartupIntrinfo)
  | add (c : Class) (p : ℕ)

/-- A call, by class. -/
def addEntry (m : Machine) : Class → ℕ → Tables → Option (ℤ × Tables)
  | .spi => gic_v3_spi_add_entry m
  | .espi => gic_v3_espi_add_entry m
  | .lpi => gic_v3_lpi_add_entry m

def step (m : Machine) (t : Tables) : Op → Option Tables
  | .fill p e => some { t with mem := Function.update t.mem p e }
  | .add c p => (addEntry m c p t).map Prod.snd

def run (m : Machine) (t : Tables) (ops : List Op) : Option Tables := ops.foldlM (step m) t

/-- Nothing has been added. -/
def start (mem : ℕ → StartupIntrinfo) : Tables := ⟨mem, fun _ => [], 0⟩

/-! ### What is promised -/

/-- The number of the first vector of a class. -/
def base : Class → BitVec 32
  | .spi => ARM_GIC_SPI_MIN_IRQ
  | .espi => ARM_GIC_ESPI_MIN_IRQ
  | .lpi => ARM_GIC_LPI_MIN_IRQ

/-- How many vectors of a class there are, as the calls compute it. -/
def count (m : Machine) : Class → BitVec 32
  | .spi => gic_v3_num_spis m
  | .espi => gic_v3_num_espis m
  | .lpi => gic_v3_num_lpis m

def clashes : Class → StartupIntrinfo → StartupIntrinfo → Bool
  | .lpi => clash_lpi
  | _ => clash

/-- **How many vectors of a class the GIC supports**, without wrap-around. -/
def supported (m : Machine) : Class → ℕ
  | .spi => min (((m.gicd_typer &&& 0x1f).toNat + 1) * 32) 1020 - 32
  | .espi =>
      if m.gicd_typer &&& GICD_TYPER_ESPI ≠ 0 then 32 * ((m.gicd_typer >>> 27).toNat + 1) else 0
  | .lpi =>
    if m.gicd_typer &&& GICD_TYPER_LPIS = 0 then 0
    else if (m.gicd_typer >>> 11) &&& 0x1f = 0 then
      2 ^ (((m.gicd_typer >>> 19) &&& 0x1f).toNat + 1) - 8192
    else 2 ^ (((m.gicd_typer >>> 11) &&& 0x1f).toNat + 1)

/-- The vectors of an entry: the first one and how many. -/
def range (e : StartupIntrinfo) : ℕ × ℕ := (e.vector_base.toNat, e.num_vectors.toNat)

def ranges (t : Tables) (c : Class) : List (ℕ × ℕ) := (t.intrinfo c).map fun q => range (t.mem q)

/-- Ranges of vectors that are not empty, each after the ones before it, and among `n` vectors from
`lo` on. -/
structure Arranged (lo n : ℕ) (l : List (ℕ × ℕ)) : Prop where
  nonempty : ∀ r ∈ l, 0 < r.2
  ascending : l.Pairwise fun r r' => r.1 + r.2 ≤ r'.1
  inside : ∀ r ∈ l, lo ≤ r.1 ∧ r.1 + r.2 ≤ lo + n
  bounded : ∀ r ∈ l, r.1 + r.2 ≤ 2 ^ 32

/-- **The tables are in order.** -/
structure Inv (m : Machine) (t : Tables) : Prop where
  arranged : ∀ c, Arranged (base c).toNat (supported m c) (ranges t c)
  total : t.num_lpis.toNat = ((ranges t .lpi).map Prod.snd).sum

/-- A refusal: the last vector is past the end of the class, there are no such vectors, they cannot
be message based, or the entry clashes with a recorded one. -/
def Refused (m : Machine) (t : Tables) (c : Class) (e : StartupIntrinfo) : Prop :=
  e.last ≥ count m c + base c ∨ c = .espi ∧ count m c = 0 ∨ c ≠ .lpi ∧ noMessages m e = true ∨
    ∃ q ∈ t.intrinfo c, clashes c e (t.mem q) = true

/-- **What an operation must meet**: an entry that is added and not refused has vectors, and their
numbers do not go past `2 ^ 32`; a recorded entry is not filled in again. -/
def Sound (m : Machine) (t : Tables) : Op → Prop
  | .fill p _ => ∀ c, p ∉ t.intrinfo c
  | .add c p =>
    (0 < (t.mem p).num_vectors.toNat ∧ (t.mem p).vector_base.toNat + (t.mem p).num_vectors.toNat ≤
      2 ^ 32) ∨
      Refused m t c (t.mem p)

/-- Every operation of a run meets it where it happens. -/
def AllSound (m : Machine) : Tables → List Op → Prop
  | _, [] => True
  | t, op :: ops => Sound m t op ∧ ∀ t', step m t op = some t' → AllSound m t' ops

/-! ### Counting the vectors -/

theorem num_spis_toNat (m : Machine) : (gic_v3_num_spis m).toNat = supported m .spi := by
  have hlt : (m.gicd_typer &&& 0x1f).toNat ≤ 31 := by
    rw [BitVec.toNat_and]
    exact Nat.and_le_right
  unfold gic_v3_num_spis supported ARM_GIC_SPI_MAX_IRQ
  generalize m.gicd_typer &&& 0x1f = x at hlt ⊢
  dsimp only
  split <;> bv_omega

theorem num_espis_toNat (m : Machine) : (gic_v3_num_espis m).toNat = supported m .espi := by
  have hshift : (m.gicd_typer &&& ((0x1f : BitVec 32) <<< 27)) >>> 27 = m.gicd_typer >>> 27 := by
    refine BitVec.eq_of_toNat_eq ?_
    have hmask : ((0x1f : BitVec 32) <<< 27).toNat >>> 27 = 2 ^ 5 - 1 := by decide
    rw [BitVec.toNat_ushiftRight, BitVec.toNat_and, Nat.shiftRight_and_distrib, hmask,
      Nat.and_two_pow_sub_one_eq_mod, BitVec.toNat_ushiftRight, Nat.shiftRight_eq_div_pow]
    have := m.gicd_typer.isLt
    omega
  have hlt : (m.gicd_typer >>> 27).toNat ≤ 31 := by
    rw [BitVec.toNat_ushiftRight, Nat.shiftRight_eq_div_pow]
    have := m.gicd_typer.isLt
    omega
  unfold gic_v3_num_espis supported
  rw [hshift]
  generalize m.gicd_typer >>> 27 = x at hlt ⊢
  split <;> bv_omega

/-- A field of five bits, with one added. -/
theorem field_add_one_toNat (x : BitVec 32) :
    ((x &&& 0x1f) + 1).toNat = (x &&& 0x1f).toNat + 1 ∧ (x &&& 0x1f).toNat ≤ 31 := by
  have hlt : (x &&& 0x1f).toNat ≤ 31 := by
    rw [BitVec.toNat_and]
    exact Nat.and_le_right
  generalize x &&& 0x1f = y at hlt ⊢
  exact ⟨by bv_omega, hlt⟩

theorem one_shiftLeft_toNat {k : ℕ} (h : k < 32) : ((1 : BitVec 32) <<< k).toNat = 2 ^ k := by
  have hone : (1 : BitVec 32).toNat = 1 := rfl
  rw [BitVec.toNat_shiftLeft, hone, Nat.one_shiftLeft,
    Nat.mod_eq_of_lt (Nat.pow_lt_pow_right (by decide) h)]

/-- The range test of the LPIs: it is the supported range for entries that do not wrap. -/
theorem lpi_inside {m : Machine} {e : StartupIntrinfo} (hbase : e.vector_base ≥ ARM_GIC_LPI_MIN_IRQ)
    (hsum : e.vector_base + e.num_vectors - ARM_GIC_LPI_MIN_IRQ ≤ gic_v3_num_lpis m)
    (hlast : ¬ e.last ≥ gic_v3_num_lpis m + ARM_GIC_LPI_MIN_IRQ) (hpos : 0 < e.num_vectors.toNat)
    (hwrap : e.vector_base.toNat + e.num_vectors.toNat ≤ 2 ^ 32) :
    e.vector_base.toNat + e.num_vectors.toNat ≤ 8192 + supported m .lpi := by
  unfold gic_v3_num_lpis at hsum hlast
  unfold supported
  dsimp only at hsum hlast ⊢
  split at hsum
  case isTrue hno =>
      rw [if_pos hno]
      unfold ARM_GIC_LPI_MIN_IRQ at hbase hsum
      bv_omega
  case isFalse hno =>
      rw [if_neg hno] at hlast ⊢
      split at hsum
      case isTrue hnlpi =>
          rw [if_pos hnlpi] at hlast ⊢
          obtain ⟨hk, hle⟩ := field_add_one_toNat (m.gicd_typer >>> 19)
          rw [hk] at hlast
          rw [BitVec.sub_add_cancel] at hlast
          rcases Nat.lt_or_ge ((m.gicd_typer >>> 19 &&& 0x1f).toNat + 1) 32 with hlt | hge
          · have htwo := one_shiftLeft_toNat hlt
            generalize (1 : BitVec 32) <<< ((m.gicd_typer >>> 19 &&& 0x1f).toNat + 1) =
              x at hlast htwo
            rw [← htwo]
            unfold ARM_GIC_LPI_MIN_IRQ at hbase
            unfold StartupIntrinfo.last at hlast
            bv_omega
          · have h32 : (m.gicd_typer >>> 19 &&& 0x1f).toNat + 1 = 32 := by omega
            rw [h32]
            omega
      case isFalse hnlpi =>
          rw [if_neg hnlpi] at hlast ⊢
          obtain ⟨hk, hle⟩ := field_add_one_toNat (m.gicd_typer >>> 11)
          rw [hk] at hsum
          rcases Nat.lt_or_ge ((m.gicd_typer >>> 11 &&& 0x1f).toNat + 1) 32 with hlt | hge
          · have htwo := one_shiftLeft_toNat hlt
            generalize (1 : BitVec 32) <<< ((m.gicd_typer >>> 11 &&& 0x1f).toNat + 1) =
              x at hsum htwo
            rw [← htwo]
            unfold ARM_GIC_LPI_MIN_IRQ at hbase hsum
            bv_omega
          · have h32 : (m.gicd_typer >>> 11 &&& 0x1f).toNat + 1 = 32 := by omega
            rw [h32]
            omega

/-! ### One call -/

/-- The checks that an entry passed. -/
structure Passed (m : Machine) (t : Tables) (c : Class) (e : StartupIntrinfo) : Prop where
  above : (base c).toNat ≤ e.vector_base.toNat
  inside : 0 < e.num_vectors.toNat → e.vector_base.toNat + e.num_vectors.toNat ≤ 2 ^ 32 →
    e.vector_base.toNat + e.num_vectors.toNat ≤ (base c).toNat + supported m c
  after : ∀ q ∈ t.intrinfo c, (t.mem q).last < e.vector_base

/-- An entry that clashes with none starts after all of them. -/
theorem after_of_not_clashes {c : Class} {e : StartupIntrinfo} {t : Tables}
    (h : ¬ (t.intrinfo c).any (fun q => clashes c e (t.mem q)) = true) :
    ∀ q ∈ t.intrinfo c, (t.mem q).last < e.vector_base := by
  intro q hq
  have hq' : clashes c e (t.mem q) = false := by
    rw [← Bool.not_eq_true]
    exact fun hc => h (List.any_eq_true.mpr ⟨q, hq, hc⟩)
  cases c <;> simp only [clashes, clash, clash_lpi, Bool.or_eq_false_iff,
    decide_eq_false_iff_not] at hq' <;> exact BitVec.not_le.mp hq'.2

/-- The range test of the SPIs and the ESPIs. -/
theorem inside_of_last {c : Class} {m : Machine} {e : StartupIntrinfo}
    (hcount : (count m c).toNat = supported m c)
    (hsmall : supported m c + (base c).toNat < 2 ^ 32) (hlast : ¬ e.last ≥ count m c + base c)
    (hwrap : e.vector_base.toNat + e.num_vectors.toNat ≤ 2 ^ 32) :
    e.vector_base.toNat + e.num_vectors.toNat ≤ (base c).toNat + supported m c := by
  unfold StartupIntrinfo.last at hlast
  rw [← hcount] at hsmall ⊢
  generalize count m c = n at hsmall hlast ⊢
  generalize base c = b at hsmall hlast ⊢
  bv_omega

theorem supported_spi_le (m : Machine) : supported m .spi ≤ 988 := by
  change min _ 1020 - 32 ≤ 988
  omega

theorem supported_espi_le (m : Machine) : supported m .espi ≤ 1024 := by
  have hlt : (m.gicd_typer >>> 27).toNat ≤ 31 := by
    rw [BitVec.toNat_ushiftRight, Nat.shiftRight_eq_div_pow]
    have := m.gicd_typer.isLt
    omega
  unfold supported
  dsimp only
  split <;> omega

theorem refusal {t t' : Tables} {r : ℤ} (h : some ((-1 : ℤ), t) = some (r, t')) : r = -1 ∧ t' = t :=
  ⟨(Prod.mk.inj (Option.some.inj h)).1.symm, (Prod.mk.inj (Option.some.inj h)).2.symm⟩

/-- **What a call does**: it refuses and changes nothing, or it takes an entry that passed and is
not refused. -/
theorem add_cases {m : Machine} {c : Class} {p : ℕ} {t t' : Tables} {r : ℤ}
    (h : addEntry m c p t = some (r, t')) :
    r = -1 ∧ t' = t ∨
      r = 0 ∧ Passed m t c (t.mem p) ∧ ¬ Refused m t c (t.mem p) ∧ ∃ e, range e = range (t.mem p) ∧
        t' = { record c p e t with
          num_lpis := if c = .lpi then t.num_lpis + (t.mem p).num_vectors else t.num_lpis } := by
  cases c with
  | spi =>
      simp only [addEntry, gic_v3_spi_add_entry] at h
      split at h
      case isTrue => exact absurd h (by simp)
      case isFalse hassert =>
          obtain ⟨-, -, hmin, -, -⟩ := not_not.mp hassert
          split at h
          case isTrue => exact .inl (refusal h)
          case isFalse hlast =>
              split at h
              case isTrue => exact .inl (refusal h)
              case isFalse hmsi =>
                  split at h
                  case isTrue => exact .inl (refusal h)
                  case isFalse hclash =>
                      obtain ⟨rfl, rfl⟩ := Prod.mk.inj (Option.some.inj h)
                      refine .inr ⟨rfl, ⟨BitVec.le_def.mp hmin, ?_, after_of_not_clashes hclash⟩,
                        ?_, _, ?_, rfl⟩
                      · intro _ hwrap
                        exact inside_of_last (num_spis_toNat m)
                          (Nat.lt_of_le_of_lt (Nat.add_le_add_right (supported_spi_le m) _)
                            (by decide)) hlast hwrap
                      · rintro (hr | ⟨hr, -⟩ | ⟨-, hr⟩ | hr)
                        · exact hlast hr
                        · cases hr
                        · exact hmsi hr
                        · exact hclash (List.any_eq_true.mpr hr)
                      · rfl
  | espi =>
      simp only [addEntry, gic_v3_espi_add_entry] at h
      split at h
      case isTrue => exact absurd h (by simp)
      case isFalse hassert =>
          obtain ⟨-, -, hmin, -, -⟩ := not_not.mp hassert
          split at h
          case isTrue => exact .inl (refusal h)
          case isFalse hzero =>
              split at h
              case isTrue => exact .inl (refusal h)
              case isFalse hlast =>
                  split at h
                  case isTrue => exact .inl (refusal h)
                  case isFalse hmsi =>
                      split at h
                      case isTrue => exact .inl (refusal h)
                      case isFalse hclash =>
                          obtain ⟨rfl, rfl⟩ := Prod.mk.inj (Option.some.inj h)
                          refine .inr ⟨rfl, ⟨BitVec.le_def.mp hmin, ?_,
                            after_of_not_clashes hclash⟩, ?_, _, ?_, rfl⟩
                          · intro _ hwrap
                            exact inside_of_last (num_espis_toNat m)
                              (Nat.lt_of_le_of_lt (Nat.add_le_add_right (supported_espi_le m) _)
                                (by decide)) hlast hwrap
                          · rintro (hr | ⟨-, hr⟩ | ⟨-, hr⟩ | hr)
                            · exact hlast hr
                            · exact hzero hr
                            · exact hmsi hr
                            · exact hclash (List.any_eq_true.mpr hr)
                          · rfl
  | lpi =>
      simp only [addEntry, gic_v3_lpi_add_entry] at h
      split at h
      case isTrue => exact absurd h (by simp)
      case isFalse hassert =>
          obtain ⟨-, -, hmin, hsum⟩ := not_not.mp hassert
          split at h
          case isTrue => exact .inl (refusal h)
          case isFalse hlast =>
              split at h
              case isTrue => exact .inl (refusal h)
              case isFalse hclash =>
                  split at h
                  case isTrue => exact absurd h (by simp)
                  case isFalse =>
                      obtain ⟨rfl, rfl⟩ := Prod.mk.inj (Option.some.inj h)
                      refine .inr ⟨rfl, ⟨BitVec.le_def.mp hmin, ?_, after_of_not_clashes hclash⟩,
                        ?_, _, ?_, rfl⟩
                      · exact fun hpos hwrap => lpi_inside hmin hsum hlast hpos hwrap
                      · rintro (hr | ⟨hr, -⟩ | ⟨hr, -⟩ | hr)
                        · exact hlast hr
                        · cases hr
                        · exact hr rfl
                        · exact hclash (List.any_eq_true.mpr hr)
                      · split <;> rfl

/-! ### Tables in order -/

/-- A range after all the others. -/
theorem Arranged.snoc {lo n : ℕ} {l : List (ℕ × ℕ)} (h : Arranged lo n l) {r : ℕ × ℕ}
    (hpos : 0 < r.2)
    (hafter : ∀ r' ∈ l, r'.1 + r'.2 ≤ r.1) (hlo : lo ≤ r.1) (hhi : r.1 + r.2 ≤ lo + n)
    (hbound : r.1 + r.2 ≤ 2 ^ 32) :
    Arranged lo n (l ++ [r]) where
  nonempty := List.forall_mem_append.mpr ⟨h.nonempty, List.forall_mem_singleton.mpr hpos⟩
  ascending := by
    refine List.pairwise_append.mpr
      ⟨h.ascending, List.pairwise_singleton _ _, fun r' hr' r'' hr'' => ?_⟩
    rw [List.mem_singleton.mp hr'']
    exact hafter r' hr'
  inside := List.forall_mem_append.mpr ⟨h.inside, List.forall_mem_singleton.mpr ⟨hlo, hhi⟩⟩
  bounded := List.forall_mem_append.mpr ⟨h.bounded, List.forall_mem_singleton.mpr hbound⟩

/-- Ranges in order fill no more than there is between the first number and the end of the last
range. -/
theorem Arranged.sum_le {lo n : ℕ} {l : List (ℕ × ℕ)} (h : Arranged lo n l) {b : ℕ} (hlo : lo ≤ b)
    (hb : ∀ r ∈ l, r.1 + r.2 ≤ b) : (l.map Prod.snd).sum ≤ b - lo := by
  induction l using List.reverseRecOn generalizing b with
  | nil => exact Nat.zero_le _
  | append_singleton l r ih =>
      have hasc := List.pairwise_append.mp h.ascending
      have hprev : Arranged lo n l :=
        ⟨fun x hx => h.nonempty x (List.mem_append_left _ hx), hasc.1, fun x hx =>
          h.inside x (List.mem_append_left _ hx),
          fun x hx => h.bounded x (List.mem_append_left _ hx)⟩
      have hr : r ∈ l ++ [r] := List.mem_append_right _ (List.mem_singleton.mpr rfl)
      have hsum := ih hprev (h.inside r hr).1 fun x hx =>
        hasc.2.2 x hx r (List.mem_singleton.mpr rfl)
      have hlast := hb r hr
      have hfirst := (h.inside r hr).1
      rw [List.map_append, List.sum_append, List.map_singleton, List.sum_singleton]
      omega

/-- An entry that was filled in with the same vectors changes no range. -/
theorem ranges_record {t : Tables} {c : Class} {p : ℕ} {e : StartupIntrinfo}
    (h : range e = range (t.mem p)) (c' : Class) :
    ranges (record c p e t) c' = if c' = c then ranges t c ++ [range (t.mem p)]
      else ranges t c' := by
  have hmem : (fun q => range (Function.update t.mem p e q)) = fun q => range (t.mem q) := by
    funext q
    by_cases hq : q = p
    · rw [hq, Function.update_self, h]
    · rw [Function.update_of_ne hq]
  unfold ranges record
  dsimp only
  rw [hmem]
  by_cases hc : c' = c
  · rw [hc, if_pos rfl, Function.update_self, List.map_append]
    rfl
  · rw [if_neg hc, Function.update_of_ne hc]

/-- The last vector of a range that is in order. -/
theorem end_le_of_last_lt {e new : StartupIntrinfo}
    (hbound : e.vector_base.toNat + e.num_vectors.toNat ≤ 2 ^ 32) (h : e.last < new.vector_base) :
    e.vector_base.toNat + e.num_vectors.toNat ≤ new.vector_base.toNat := by
  unfold StartupIntrinfo.last at h
  bv_omega

/-- **One call** keeps the tables in order. -/
theorem Inv.add {m : Machine} {t t' : Tables} {c : Class} {p : ℕ} {r : ℤ} (h : Inv m t)
    (hsound : Sound m t (.add c p)) (hstep : addEntry m c p t = some (r, t')) : Inv m t' := by
  rcases add_cases hstep with ⟨-, rfl⟩ | ⟨-, hpassed, hrefused, e, he, rfl⟩
  · exact h
  · obtain ⟨hpos, hwrap⟩ := hsound.resolve_right hrefused
    have harranged : Arranged (base c).toNat (supported m c) (ranges t c ++ [range (t.mem p)]) := by
      refine (h.arranged c).snoc hpos (fun r' hr' => ?_) hpassed.above
        (hpassed.inside hpos hwrap) hwrap
      obtain ⟨q, hq, rfl⟩ := List.mem_map.mp hr'
      exact end_le_of_last_lt ((h.arranged c).bounded _ hr') (hpassed.after q hq)
    refine ⟨fun c' => ?_, ?_⟩
    · change Arranged _ _ (ranges (record c p e t) c')
      rw [ranges_record he]
      split
      case isTrue hc => exact hc ▸ harranged
      case isFalse => exact h.arranged c'
    · change (if c = .lpi then t.num_lpis + (t.mem p).num_vectors else t.num_lpis).toNat =
        ((ranges (record c p e t) .lpi).map Prod.snd).sum
      rw [ranges_record he]
      by_cases hc : c = .lpi
      · subst hc
        -- the vectors of all LPI entries together fit in 32 bits
        have hsum : t.num_lpis.toNat + (t.mem p).num_vectors.toNat ≤ 2 ^ 32 - 8192 := by
          have := harranged.sum_le (b := 2 ^ 32) (by decide) harranged.bounded
          rwa [List.map_append, List.sum_append, ← h.total] at this
        rw [if_pos rfl, if_pos rfl, List.map_append, List.sum_append, ← h.total, BitVec.toNat_add,
          Nat.mod_eq_of_lt (by omega)]
        rfl
      · rw [if_neg hc, if_neg fun heq => hc heq.symm, h.total]

/-- Filling in an entry that is not recorded. -/
theorem Inv.fill {m : Machine} {t : Tables} {p : ℕ} {e : StartupIntrinfo} (h : Inv m t)
    (hsound : Sound m t (.fill p e)) :
    Inv m { t with mem := Function.update t.mem p e } := by
  have hranges : ∀ c, ranges { t with mem := Function.update t.mem p e } c = ranges t c := by
    intro c
    refine List.map_congr_left fun q hq => ?_
    have hqp : q ≠ p := fun heq => hsound c (heq ▸ hq)
    dsimp only
    rw [Function.update_of_ne hqp]
  refine ⟨fun c => ?_, ?_⟩
  · rw [hranges]
    exact h.arranged c
  · rw [hranges]
    exact h.total

theorem Inv.step {m : Machine} {t t' : Tables} {op : Op} (h : Inv m t) (hsound : Sound m t op)
    (hstep : step m t op = some t') : Inv m t' := by
  cases op with
  | fill p e =>
      rw [← Option.some.inj hstep]
      exact h.fill hsound
  | add c p =>
      obtain ⟨⟨r, t''⟩, hadd, rfl⟩ := Option.map_eq_some_iff.mp hstep
      exact h.add hsound hadd

theorem inv_start (m : Machine) (mem : ℕ → StartupIntrinfo) : Inv m (start mem) where
  arranged _ :=
    ⟨by simp [ranges, start], by simp [ranges, start], by simp [ranges, start],
      by simp [ranges, start]⟩
  total := by simp [ranges, start]

theorem inv_run {m : Machine} {ops : List Op} :
    ∀ {t t' : Tables}, Inv m t → AllSound m t ops → run m t ops = some t' →
    Inv m t' := by
  induction ops with
  | nil =>
      intro t t' h _ hrun
      exact Option.some.inj hrun ▸ h
  | cons op ops ih =>
      intro t t' h hsound hrun
      rw [run, List.foldlM_cons] at hrun
      obtain ⟨t₁, hstep, hrest⟩ := Option.bind_eq_some_iff.mp hrun
      exact ih (h.step hsound.1 hstep) (hsound.2 t₁ hstep) hrest

/-- **The recorded interrupts**: in every run whose operations meet `Sound`, the entries of each
class are not empty, in ascending order without overlap, and among the vectors that the GIC
supports, and the number of LPIs is that of the recorded entries.  A call that is refused, in
whatever state, changes nothing at all. -/
theorem entries_run {m : Machine} {mem : ℕ → StartupIntrinfo} {ops : List Op} {t : Tables}
    (hsound : AllSound m (start mem) ops) (hrun : run m (start mem) ops = some t) :
    Inv m t ∧ ∀ (s s' : Tables) (c : Class) (p : ℕ), addEntry m c p s = some (-1, s') → s' = s := by
  refine ⟨inv_run (inv_start m mem) hsound hrun, fun s s' c p h => ?_⟩
  rcases add_cases h with ⟨-, hs⟩ | ⟨hr, -⟩
  · exact hs
  · exact absurd hr (by decide)

/-- A GIC with `32 * n` SPIs, without ESPIs and LPIs. -/
def spisOnly (n : BitVec 32) : Machine := ⟨true, n, false, 8, 0x7fffffff⟩

/-- An entry for `n` vectors from `b` on. -/
def vectors (b n : BitVec 32) : StartupIntrinfo :=
  ⟨b, n, 0, 0, 0, 0, ⟨0, 0, none⟩, ⟨0, 0, none⟩, none, none⟩

theorem entries_run_one :
    ∃ t, run (spisOnly 7) (start fun _ => vectors 0 0) [.fill 0 (vectors 40 8), .add .spi 0] =
        some t ∧
      ranges t .spi = [(40, 8)] ∧ Inv (spisOnly 7) t := by
  have hsound : AllSound (spisOnly 7) (start fun _ => vectors 0 0)
      [.fill 0 (vectors 40 8), .add .spi 0] := by
    refine ⟨fun c => List.not_mem_nil, fun t ht => ?_⟩
    rw [← Option.some.inj ht]
    exact ⟨.inl (by decide), fun _ _ => trivial⟩
  have hsome : (run (spisOnly 7) (start fun _ => vectors 0 0)
      [.fill 0 (vectors 40 8), .add .spi 0]).map (ranges · .spi) = some [(40, 8)] := by decide
  obtain ⟨t, ht, hranges⟩ := Option.map_eq_some_iff.mp hsome
  exact ⟨t, ht, hranges, (entries_run hsound ht).1⟩

/-- On a GIC without SPIs the default entry, which asks for all of them, is empty and is taken.  So
is an entry whose end wraps around. -/
theorem empty_entry_is_taken :
    (∃ t, addEntry (spisOnly 0) .spi 0 (start fun _ => vectors 32 (gic_v3_num_spis (spisOnly 0))) =
          some (0, t) ∧
        ¬ Inv (spisOnly 0) t) ∧
      ∃ t, addEntry (spisOnly 7) .spi 0 (start fun _ => vectors 100 (-60)) = some (0, t) ∧
      ¬ Inv (spisOnly 7) t := by
  constructor
  · have hsome : (addEntry (spisOnly 0) .spi 0
        (start fun _ => vectors 32 (gic_v3_num_spis (spisOnly 0)))).map
        (fun r => (r.1, ranges r.2 .spi)) = some (0, [(32, 0)]) := by decide
    obtain ⟨⟨r, t⟩, ht, hranges⟩ := Option.map_eq_some_iff.mp hsome
    obtain ⟨rfl, hranges⟩ := Prod.mk.inj hranges
    refine ⟨t, ht, fun h => ?_⟩
    have := (h.arranged .spi).nonempty (32, 0) (by rw [hranges]; exact List.mem_singleton.mpr rfl)
    exact absurd this (by decide)
  · have hsome : (addEntry (spisOnly 7) .spi 0 (start fun _ => vectors 100 (-60))).map
        (fun r => (r.1, ranges r.2 .spi)) = some (0, [(100, 4294967236)]) := by decide
    obtain ⟨⟨r, t⟩, ht, hranges⟩ := Option.map_eq_some_iff.mp hsome
    obtain ⟨rfl, hranges⟩ := Prod.mk.inj hranges
    refine ⟨t, ht, fun h => ?_⟩
    have := (h.arranged .spi).inside (100, 4294967236)
      (by rw [hranges]; exact List.mem_singleton.mpr rfl)
    exact absurd this.2 (by decide)

end Gic

end Startup
