import Mathlib.Data.Nat.Bitwise
import RpiBsp.Support.Search

/-!
# Sdmmc — Sdhci — the bus clock

`sdhci_clk`, which looks for the divider of the bus clock in one of three encodings, and the part of
`sdhci_init` that reads the base clock from the capabilities.

* `divider_put` — the field that is put into the clock register is read back from it;
* `divider_picks` — it stands for the least divisor that keeps the clock at or below what is asked
  for, or the largest there is;
* `clocked_iff` — the base clock fits 32 bits unless the multiplier takes it beyond them.
-/

namespace Sdmmc.Clock

open Support

/-! ### Definitions -/

def SDHCI_SYSCTL_ICE : BitVec 32 := 1 <<< 0
def SDHCI_SYSCTL_CEN : BitVec 32 := 1 <<< 2
def SDHCI_SYSCTL_CGS_PROG : BitVec 32 := 1 <<< 5
def SDHCI_SYSCTL_SDCLKFS_MSK : BitVec 32 := 0xffc0
def SDHCI_SYSCTL_DTO_MSK : BitVec 32 := 0xF <<< 16
def SDHCI_SYSCTL_DTO_MAX : BitVec 32 := 0xE <<< 16
def SDHCI_SYSCTL_SRC : BitVec 32 := 1 <<< 25
def SDHCI_SYSCTL_SRD : BitVec 32 := 1 <<< 26

/-- `SDHCI_SYSCTL_CLK`: eight bits of the divider, and the two above them in the bits below. -/
def SDHCI_SYSCTL_CLK (c : BitVec 32) : BitVec 32 :=
  ((c <<< 8) &&& 0xff00#32) ||| ((c >>> 2) &&& 0xc0#32)

def SDHCI_CLK_MAX_DIV_SPEC_VER_2 : ℕ := 256
def SDHCI_CLK_MAX_DIV_SPEC_VER_3 : ℕ := 2046
def SDHCI_SPEC_VER_3 : ℕ := 2

/-- What `sdhci_clk` reads: the version and the clocks of the host, whether the internal clock goes
on, the clock register and whether presets are enabled. -/
structure Host where
  version : ℕ
  clk_max : ℕ
  clk_mul : ℕ
  ice_persist : Bool
  sysctl : BitVec 32
  preset_val : Bool

/-- How a divider is encoded. -/
inductive Mode where
  | programmable
  | preset
  | tenBit
  | eightBit
deriving DecidableEq, Repr

def Host.mode (hc : Host) : Mode :=
  if hc.version ≥ SDHCI_SPEC_VER_3 then
    if hc.clk_mul ≠ 0 then if hc.preset_val then .preset else .programmable
    else .tenBit
  else .eightBit

/-- `clkd` as `sdhci_clk` leaves it. -/
def clkd (hc : Host) (clk : ℕ) : ℕ :=
  match hc.mode with
  | .programmable => search (fun d => hc.clk_max / d ≤ clk) (· + 1) 1024 1024 1 - 1
  | .preset => 0
  | .tenBit =>
    let d := search (fun d => hc.clk_max / d ≤ clk) (· + 2) SDHCI_CLK_MAX_DIV_SPEC_VER_3 1024 2
    (if hc.clk_max ≤ clk then 1 else d) >>> 1
  | .eightBit =>
      search (fun d => hc.clk_max / d ≤ clk) (· * 2) SDHCI_CLK_MAX_DIV_SPEC_VER_2 1024 1 >>> 1

/-- The clock register with the clock stopped, as `sctl` starts. -/
def stopped (hc : Host) : BitVec 32 :=
  (if hc.ice_persist then
    hc.sysctl &&& ~~~(SDHCI_SYSCTL_CEN ||| SDHCI_SYSCTL_DTO_MSK ||| SDHCI_SYSCTL_CGS_PROG |||
      SDHCI_SYSCTL_SDCLKFS_MSK)
  else
    hc.sysctl &&& ~~~(SDHCI_SYSCTL_ICE ||| SDHCI_SYSCTL_CEN ||| SDHCI_SYSCTL_DTO_MSK |||
      SDHCI_SYSCTL_CGS_PROG ||| SDHCI_SYSCTL_SDCLKFS_MSK)) ||| SDHCI_SYSCTL_DTO_MAX

/-- `sdhci_clk`: the three values it writes to the clock register. -/
def sdhci_clk (hc : Host) (clk : ℕ) : List (BitVec 32) :=
  let sctl := stopped hc
  let reset := sctl ||| SDHCI_SYSCTL_SRC ||| SDHCI_SYSCTL_SRD
  let sctl := if hc.mode = .programmable then sctl ||| SDHCI_SYSCTL_CGS_PROG else sctl
  let sctl := sctl ||| SDHCI_SYSCTL_CLK (BitVec.ofNat 32 (clkd hc clk)) ||| SDHCI_SYSCTL_ICE
  [reset, sctl, sctl ||| SDHCI_SYSCTL_CEN]

/-- `SDHCI_CAP_BASE_CLK`. -/
def SDHCI_CAP_BASE_CLK (cap : BitVec 32) (version : ℕ) : ℕ :=
  (if version ≥ SDHCI_SPEC_VER_3 then (cap >>> 8) &&& 0xff#32 else (cap >>> 8) &&& 0x3f#32).toNat *
    1000 * 1000 % 2 ^ 32

/-- `SDHCI_CAP_CLK_MULT`. -/
def SDHCI_CAP_CLK_MULT (cap : BitVec 32) : ℕ := ((cap &&& 0xff0000#32) >>> 16).toNat

/-- The clocks that `sdhci_init` finds. -/
structure Clocks where
  clk_max : ℕ
  clk_min : ℕ
  clk_mul : ℕ
deriving DecidableEq, Repr

/-- `sdhci_init`, with the capabilities it reads. -/
def sdhci_init (version : ℕ) (cap cap2 : BitVec 32) : Clocks :=
  let cap2 := if version ≥ SDHCI_SPEC_VER_3 then cap2 else 0
  let clk_max := SDHCI_CAP_BASE_CLK cap version
  if version ≥ SDHCI_SPEC_VER_3 then
    let clk_mul := SDHCI_CAP_CLK_MULT cap2
    if clk_mul ≠ 0 then
      { clk_max := clk_max * clk_mul % 2 ^ 32
        clk_min := clk_max * clk_mul % 2 ^ 32 / 1024
        clk_mul := clk_mul }
    else { clk_max := clk_max, clk_min := clk_max / SDHCI_CLK_MAX_DIV_SPEC_VER_3, clk_mul := 0 }
  else { clk_max := clk_max, clk_min := clk_max / SDHCI_CLK_MAX_DIV_SPEC_VER_2, clk_mul := 0 }

/-! ### The register -/

/-- The divider that the controller takes from the clock register. -/
def divider (v : BitVec 32) : BitVec 32 := ((v >>> 8) &&& 0xff#32) ||| ((v &&& 0xc0#32) <<< 2)

@[simp] theorem divider_or (v w : BitVec 32) : divider (v ||| w) = divider v ||| divider w := by
  simp only [divider, BitVec.ushiftRight_or_distrib, BitVec.and_or_distrib_right,
    BitVec.shiftLeft_or_distrib]
  ac_rfl

/-- A mask without the bits of the field clears it. -/
theorem divider_and {m : BitVec 32} (h : (m >>> 8) &&& 0xff#32 = 0#32) (h' : m &&& 0xc0#32 = 0#32)
    (v : BitVec 32) :
    divider (v &&& m) = 0 := by
  rw [divider, BitVec.ushiftRight_and_distrib, BitVec.and_assoc, h, BitVec.and_assoc, h']
  simp

/-- Ten bits of a divider are read back as they were put. -/
theorem divider_clk {c : ℕ} (hc : c < 1024) :
    divider (SDHCI_SYSCTL_CLK (BitVec.ofNat 32 c)) = BitVec.ofNat 32 c := by
  have h : ∀ c : Fin 1024, divider (SDHCI_SYSCTL_CLK (BitVec.ofNat 32 c)) = BitVec.ofNat 32 c := by
    decide +kernel
  exact h ⟨c, hc⟩

theorem divider_stopped (hc : Host) : divider (stopped hc) = 0 := by
  have hdto : divider SDHCI_SYSCTL_DTO_MAX = 0 := by decide
  unfold stopped
  split
  all_goals
    rw [divider_or, hdto, divider_and (by decide) (by decide)]
    rfl

/-! ### The divisor -/

/-- The bits of the field in a mode. -/
def Mode.bits : Mode → ℕ
  | .eightBit => 8
  | _ => 10

/-- The divisor that a field stands for. -/
def Mode.divisor (m : Mode) (field : ℕ) : ℕ :=
  match m with
  | .programmable => field + 1
  | _ => if field = 0 then 1 else 2 * field

/-- The divisors that a mode can express.  With presets the controller takes its own. -/
def Mode.Available (m : Mode) (d : ℕ) : Prop :=
  match m with
  | .programmable => 1 ≤ d ∧ d ≤ 1024
  | .preset => False
  | .tenBit => d = 1 ∨ 2 ∣ d ∧ 2 ≤ d ∧ d ≤ 2046
  | .eightBit => ∃ k ≤ 8, d = 2 ^ k

/-- The clock is at or below what is asked for. -/
def Below (clk_max clk d : ℕ) : Prop := clk_max / d ≤ clk

instance (clk_max clk : ℕ) : DecidablePred (Below clk_max clk) :=
  fun _ => inferInstanceAs (Decidable (_ ≤ _))

theorem candidates_succ : Candidates (· + 1) (fun k => k + 1) 1024 1023 where
  next := fun _ _ => rfl
  grows := fun _ _ hjk _ => Nat.succ_lt_succ hjk
  limit := rfl

theorem candidates_even : Candidates (· + 2) (fun k => 2 * k + 2) 2046 1022 where
  next := fun k _ => by omega
  grows := fun j k hjk _ => by omega
  limit := rfl

theorem candidates_pow : Candidates (· * 2) (fun k => 2 ^ k) 256 8 where
  next := fun k _ => (pow_succ 2 k).symm
  grows := fun j k hjk _ => Nat.pow_lt_pow_right (by decide) hjk
  limit := rfl

/-- The same pick of the same candidates, described in another way. -/
theorem Picks.of_iff {avail avail' p : ℕ → Prop} {d : ℕ} (h : Picks avail p d)
    (hiff : ∀ d', avail' d' ↔ avail d') : Picks avail' p d where
  mem := (hiff d).mpr h.mem
  least := fun d' hd' => h.least d' ((hiff d').mp hd')
  passes := h.passes.imp id fun hno d' hd' => hno d' ((hiff d').mp hd')

theorem programmable_picks (clk_max clk : ℕ) :
    Picks Mode.programmable.Available (Below clk_max clk)
      (search (Below clk_max clk) (· + 1) 1024 1024 1) := by
  have h : Picks (fun d => ∃ k ≤ 1023, d = k + 1) (Below clk_max clk)
      (search (Below clk_max clk) (· + 1) 1024 1024 1) := search_picks candidates_succ (by decide)
  refine Picks.of_iff h fun d => ?_
  constructor
  · rintro ⟨hd, hd'⟩
    exact ⟨d - 1, by omega, by omega⟩
  · rintro ⟨k, hk, rfl⟩
    exact ⟨by omega, by omega⟩

theorem eightBit_picks (clk_max clk : ℕ) :
    Picks Mode.eightBit.Available (Below clk_max clk)
      (search (Below clk_max clk) (· * 2) SDHCI_CLK_MAX_DIV_SPEC_VER_2 1024 1) :=
  search_picks candidates_pow (by decide)

/-- Beside the even divisors there is the divisor one, which is taken where the base clock is low
enough. -/
theorem tenBit_picks (clk_max clk : ℕ) :
    Picks Mode.tenBit.Available (Below clk_max clk)
      (if clk_max ≤ clk then 1
        else search (Below clk_max clk) (· + 2) SDHCI_CLK_MAX_DIV_SPEC_VER_3 1024 2) := by
  have hone : Below clk_max clk 1 ↔ clk_max ≤ clk := by rw [Below, Nat.div_one]
  split
  case isTrue h =>
    refine ⟨.inl rfl, ?_, .inl (hone.mpr h)⟩
    rintro d (rfl | ⟨-, hd, -⟩) _
    · exact le_rfl
    · omega
  case isFalse h =>
    have hsearch : Picks (fun d => ∃ k ≤ 1022, d = 2 * k + 2) (Below clk_max clk)
        (search (Below clk_max clk) (· + 2) SDHCI_CLK_MAX_DIV_SPEC_VER_3 1024 2) :=
      search_picks candidates_even (by decide)
    have hiff : ∀ d, Mode.tenBit.Available d ↔ d = 1 ∨ ∃ k ≤ 1022, d = 2 * k + 2 := by
      intro d
      refine or_congr Iff.rfl ⟨?_, ?_⟩
      · rintro ⟨⟨j, rfl⟩, hd, hd'⟩
        exact ⟨j - 1, by omega, by omega⟩
      · rintro ⟨k, hk, rfl⟩
        exact ⟨⟨k + 1, by omega⟩, by omega, by omega⟩
    refine ⟨(hiff _).mpr (.inr hsearch.mem), ?_, ?_⟩
    · intro d hd hp
      rcases (hiff d).mp hd with rfl | hk
      · exact absurd (hone.mp hp) h
      · exact hsearch.least d hk hp
    · refine hsearch.passes.imp id fun hno d hd => ?_
      rcases (hiff d).mp hd with rfl | hk
      · obtain ⟨k, -, hk⟩ := hsearch.mem
        have hpos : 1 ≤ 2 * k + 2 := by omega
        exact ⟨fun hp => h (hone.mp hp), hpos.trans hk.ge⟩
      · exact hno d hk

/-- A divisor is one or even, and its half is the field. -/
theorem halved {m : Mode} (hm : m ≠ .programmable) {d : ℕ} (hd : d = 1 ∨ 2 ∣ d ∧ 2 ≤ d) :
    m.divisor (d >>> 1) = d := by
  have hhalf : d >>> 1 = d / 2 := Nat.shiftRight_one d
  have hdivisor : m.divisor (d / 2) = if d / 2 = 0 then 1 else 2 * (d / 2) := by
    cases m with
    | programmable => exact absurd rfl hm
    | preset => rfl
    | tenBit => rfl
    | eightBit => rfl
  rw [hhalf, hdivisor]
  split <;> omega

/-- A pick that is halved fits the bits of the field, and is what the field stands for. -/
theorem picks_halved {m : Mode} (hm : m ≠ .programmable) {clk_max clk d : ℕ}
    (h : Picks m.Available (Below clk_max clk) d) (hd : d = 1 ∨ 2 ∣ d ∧ 2 ≤ d)
    (hle : d < 2 * 2 ^ m.bits) :
    d >>> 1 < 2 ^ m.bits ∧ Picks m.Available (Below clk_max clk) (m.divisor (d >>> 1)) := by
  rw [halved hm hd, Nat.shiftRight_one]
  exact ⟨Nat.div_lt_of_lt_mul hle, h⟩

/-- The powers of two up to 256 are divisors that can be halved. -/
theorem eightBit_available {d : ℕ} (h : Mode.eightBit.Available d) :
    (d = 1 ∨ 2 ∣ d ∧ 2 ≤ d) ∧ d ≤ 256 := by
  obtain ⟨k, hk, rfl⟩ := h
  refine ⟨?_, (Nat.pow_le_pow_right (by decide) hk).trans (by decide)⟩
  cases k with
  | zero => exact .inl rfl
  | succ k =>
      exact .inr ⟨Dvd.intro_left (2 ^ k) (pow_succ 2 k).symm, Nat.le_self_pow k.succ_ne_zero 2⟩

/-- **The divider is the pick.**  In every mode in which `sdhci_clk` looks for one, the field fits
its bits and stands for the least divisor that does not exceed the clock asked for, or for the
largest. -/
theorem clkd_picks (hc : Host) (clk : ℕ) (hm : hc.mode ≠ .preset) :
    clkd hc clk < 2 ^ hc.mode.bits ∧
      Picks hc.mode.Available (Below hc.clk_max clk) (hc.mode.divisor (clkd hc clk)) := by
  rcases hmode : hc.mode with _ | _ | _ | _
  case programmable =>
    have h := programmable_picks hc.clk_max clk
    obtain ⟨hge, hle⟩ := h.mem
    have hfield : clkd hc clk = search (Below hc.clk_max clk) (· + 1) 1024 1024 1 - 1 := by
      simp only [clkd, hmode]
      rfl
    have hdivisor : Mode.programmable.divisor (clkd hc clk) =
        search (Below hc.clk_max clk) (· + 1) 1024 1024 1 := by
      rw [hfield]
      exact Nat.sub_add_cancel hge
    rw [hdivisor, hfield]
    refine ⟨?_, h⟩
    change _ < 1024
    omega
  case preset => exact absurd hmode hm
  case tenBit =>
    have h := tenBit_picks hc.clk_max clk
    have hfield : clkd hc clk = (if hc.clk_max ≤ clk then 1
        else search (Below hc.clk_max clk) (· + 2) SDHCI_CLK_MAX_DIV_SPEC_VER_3 1024 2) >>> 1 := by
      simp only [clkd, hmode]
      rfl
    rw [hfield]
    refine picks_halved (by decide) h (h.mem.imp id fun hd => ⟨hd.1, hd.2.1⟩) ?_
    rcases h.mem with hd | ⟨-, -, hle⟩
    · rw [hd]
      decide
    · exact hle.trans_lt (by decide)
  case eightBit =>
    have h := eightBit_picks hc.clk_max clk
    have hfield : clkd hc clk =
        search (Below hc.clk_max clk) (· * 2) SDHCI_CLK_MAX_DIV_SPEC_VER_2 1024 1 >>> 1 := by
      simp only [clkd, hmode]
      rfl
    obtain ⟨hd, hle⟩ := eightBit_available h.mem
    rw [hfield]
    exact picks_halved (by decide) h hd (hle.trans_lt (by decide))

/-- The field that is written is the one that was looked for, in both writes that follow the
stop. -/
theorem divider_written (hc : Host) (clk : ℕ) (hfit : clkd hc clk < 1024) :
    ∀ v ∈ (sdhci_clk hc clk).drop 1, (divider v).toNat = clkd hc clk := by
  have hprog : divider SDHCI_SYSCTL_CGS_PROG = 0 := by decide
  have hice : divider SDHCI_SYSCTL_ICE = 0 := by decide
  have hcen : divider SDHCI_SYSCTL_CEN = 0 := by decide
  have hsctl : divider (if hc.mode = .programmable then stopped hc ||| SDHCI_SYSCTL_CGS_PROG
      else stopped hc) = 0 := by
    split
    · rw [divider_or, divider_stopped, hprog]
      rfl
    · exact divider_stopped hc
  intro v hv
  have hdivider : divider v = BitVec.ofNat 32 (clkd hc clk) := by
    rcases List.mem_cons.mp hv with rfl | hv
    · simp [hsctl, hice, divider_clk hfit]
    · obtain rfl := List.mem_singleton.mp hv
      simp [hsctl, hice, hcen, divider_clk hfit]
  rw [hdivider, BitVec.toNat_ofNat]
  exact Nat.mod_eq_of_lt (hfit.trans (by decide))

/-! ### The base clock -/

/-- The base clock of the capabilities in MHz, and the multiplier that goes with it. -/
def megahertz (version : ℕ) (cap : BitVec 32) : ℕ :=
  (if version ≥ SDHCI_SPEC_VER_3 then (cap >>> 8) &&& 0xff#32 else (cap >>> 8) &&& 0x3f#32).toNat

def multiplier (version : ℕ) (cap2 : BitVec 32) : ℕ :=
  if version ≥ SDHCI_SPEC_VER_3 ∧ SDHCI_CAP_CLK_MULT cap2 ≠ 0 then SDHCI_CAP_CLK_MULT cap2 else 1

theorem megahertz_lt (version : ℕ) (cap : BitVec 32) : megahertz version cap < 256 := by
  unfold megahertz
  split
  · exact Nat.lt_succ_of_le ((BitVec.toNat_and _ _).le.trans Nat.and_le_right)
  · exact (Nat.lt_succ_of_le ((BitVec.toNat_and _ _).le.trans Nat.and_le_right)).trans (by decide)

/-- The base clock, as far as 32 bits hold it. -/
theorem init_clk_max (version : ℕ) (cap cap2 : BitVec 32) :
    (sdhci_init version cap cap2).clk_max =
      megahertz version cap * 1000000 * multiplier version cap2 % 2 ^ 32 := by
  have hlt := megahertz_lt version cap
  have hbase : SDHCI_CAP_BASE_CLK cap version = megahertz version cap * 1000000 := by
    have hfit : megahertz version cap * 1000000 < 2 ^ 32 := by omega
    rw [SDHCI_CAP_BASE_CLK, ← megahertz, Nat.mul_assoc]
    exact Nat.mod_eq_of_lt hfit
  have hfit : megahertz version cap * 1000000 < 2 ^ 32 := by omega
  by_cases hv : version ≥ SDHCI_SPEC_VER_3
  case neg =>
    simp [sdhci_init, multiplier, hv, hbase]
    omega
  case pos =>
    by_cases hz : SDHCI_CAP_CLK_MULT cap2 = 0
    case pos =>
      simp [sdhci_init, multiplier, hv, hz, hbase]
      omega
    case neg => simp [sdhci_init, multiplier, hv, hz, hbase]

/-- What the clock of a host that has these capabilities is asked to be. -/
structure Clocked (version : ℕ) (cap cap2 : BitVec 32) : Prop where
  divider : ∀ hc : Host, ∀ clk : ℕ, 0 < clk → hc.mode ≠ .preset → ∀ v ∈ (sdhci_clk hc clk).drop 1,
    (divider v).toNat < 2 ^ hc.mode.bits ∧
      Picks hc.mode.Available (Below hc.clk_max clk) (hc.mode.divisor (divider v).toNat)
  init : (sdhci_init version cap cap2).clk_max =
    megahertz version cap * 1000000 * multiplier version cap2

/-- **The bus clock.**  Every divider is the pick of its mode, and the base clock is not cut exactly
where its product with the multiplier is below 4295 MHz. -/
theorem clocked_iff (version : ℕ) (cap cap2 : BitVec 32) :
    Clocked version cap cap2 ↔ megahertz version cap * multiplier version cap2 ≤ 4294 := by
  have hexact : (sdhci_init version cap cap2).clk_max =
      megahertz version cap * 1000000 * multiplier version cap2 ↔
        megahertz version cap * multiplier version cap2 ≤ 4294 := by
    have hprod : megahertz version cap * 1000000 * multiplier version cap2 =
        megahertz version cap * multiplier version cap2 * 1000000 := Nat.mul_right_comm _ _ _
    rw [init_clk_max, hprod]
    omega
  constructor
  · exact fun h => hexact.mp h.init
  · intro h
    refine ⟨?_, hexact.mpr h⟩
    intro hc clk _ hm v hv
    obtain ⟨hfit, hpicks⟩ := clkd_picks hc clk hm
    have hten : 2 ^ hc.mode.bits ≤ 1024 := by
      cases hc.mode <;> decide
    rw [divider_written hc clk (hfit.trans_le hten) v hv]
    exact ⟨hfit, hpicks⟩

/-- A base clock of 200 MHz and a multiplier of 32. -/
theorem clocked_fast : ¬ ∀ (version : ℕ) (cap cap2 : BitVec 32), Clocked version cap cap2 := by
  intro h
  have hinit := (h 2 0x0000c800 0x00200000).init
  exact absurd hinit (by decide)

end Sdmmc.Clock
