import RpiBsp.Spi.Config
import RpiBsp.Support.Divider

/-!
# Spi — the divisor of the clock

A request for a rate is turned into a divisor, the divisor into the rate that is stored, and a
transfer turns the stored rate into the divisor that it writes to `BAUDR`.  The controller ignores
the lowest bit of it.

* `dw_setcfg_stored` — the rate that is stored, for every request and every rate of before.
* `dw_cfg_again` — a second `dw_cfg` changes nothing.
* `prepare_baudr` — a transfer writes the divisor for the stored rate.
* `baudr_iff` — the requests after which `BAUDR` is in range and the clock is no faster than was
asked for.
-/

namespace Spi

open Support Driver

/-! ### The rate that is stored -/

/-- The divisor that a rate is to have. -/
def wanted (f rate : ℕ) : ℕ := min ((f + rate - 1) / rate) DW_SCK_DIV_MAX

/-- The rate that a request leaves, by the rate of before. -/
def stored (f rate current : ℕ) : ℕ :=
  if f / 2 < rate then if current = f then f else f / 2
  else if current = rate then rate
  else f / wanted f rate

variable {cs_max : ℕ} {spi : DwSpi} {dev dev' : Dev} {cfg : Cfg} {f rate : ℕ}

theorem two_le_wanted (hr : 0 < rate) (hle : ¬ f / 2 < rate) : 2 ≤ wanted f rate := by
  refine Nat.le_min.mpr ⟨(Nat.le_div_iff_mul_le hr).mpr ?_, by decide⟩
  omega

theorem wanted_le (hr : 0 < rate) : wanted f rate ≤ f := (Nat.min_le_left _ _).trans (ceil_le hr)

theorem clockRateDiv_of_le (hf : f < 2 ^ 32) (hr : 0 < rate) (hle : ¬ f / 2 < rate) :
    clockRateDiv f rate = wanted f rate := by
  have hsum : f + rate - 1 < 2 ^ 64 := by omega
  have hquot : (f + rate - 1) / rate < 2 ^ 32 := (ceil_le hr).trans_lt hf
  unfold clockRateDiv
  rw [Nat.mod_eq_of_lt hsum, Nat.mod_eq_of_lt hquot]
  exact max_eq_left (two_le_wanted hr hle)

/-- The divisor for the clock itself is the least. -/
theorem clockRateDiv_self (hf : 2 ≤ f) (hlt : f < 2 ^ 32) : clockRateDiv f f = 2 := by
  have hsum : f + f - 1 < 2 ^ 64 := by omega
  have hquot : (f + f - 1) / f = 1 := Nat.div_eq_of_lt_le (by omega) (by omega)
  unfold clockRateDiv
  rw [Nat.mod_eq_of_lt hsum, hquot]
  rfl

theorem setClock_stored (hf : 2 ≤ f) (hlt : f < 2 ^ 32) (hr : 0 < rate) (dev : Dev) :
    setClock f dev (if f / 2 < rate then f % 2 ^ 32 else rate) =
      some { dev with
        cfg := { dev.cfg with clock_rate := stored f rate dev.current_clkrate }
        current_clkrate := stored f rate dev.current_clkrate } := by
  unfold stored setClock
  rw [Nat.mod_eq_of_lt hlt]
  by_cases hfast : f / 2 < rate
  · rw [if_pos hfast, if_pos hfast]
    by_cases hcur : dev.current_clkrate = f
    · rw [if_neg (not_not.mpr hcur), if_pos hcur, ← hcur]
    · have hhalf : f / 2 < 2 ^ 32 := (Nat.div_le_self f 2).trans_lt hlt
      rw [if_pos hcur, if_neg hcur, if_neg (by omega), clockRateDiv_self hf hlt,
        Nat.mod_eq_of_lt hhalf]
  · rw [if_neg hfast, if_neg hfast]
    by_cases hcur : dev.current_clkrate = rate
    · rw [if_neg (not_not.mpr hcur), if_pos hcur, ← hcur]
    · have hquot : f / wanted f rate < 2 ^ 32 := (Nat.div_le_self f _).trans_lt hlt
      rw [if_pos hcur, if_neg hcur, if_neg hr.ne', clockRateDiv_of_le hlt hr hfast,
        Nat.mod_eq_of_lt hquot]

/-- What an accepted request leaves. -/
theorem dw_setcfg_stored (hf : 2 ≤ spi.input_clk) (hlt : spi.input_clk < 2 ^ 32)
    (h : dw_setcfg cs_max spi dev cfg = some (.eok, dev')) :
    dev.devno < cs_max ∧ cfg.Supported ∧ dev' = { dev with
      cfg := { cfg with clock_rate := stored spi.input_clk cfg.clock_rate dev.current_clkrate }
      current_clkrate := stored spi.input_clk cfg.clock_rate dev.current_clkrate } := by
  obtain ⟨hdev, hok, -⟩ := @dw_cfg_eok cs_max spi { dev with cfg := cfg } dev' h
  refine ⟨hdev, hok, ?_⟩
  obtain ⟨hlow, hhigh, hrate⟩ := hok
  unfold dw_setcfg dw_cfg at h
  dsimp only at h hdev
  rw [if_neg (Nat.not_le.mpr hdev), if_neg (not_or.mpr ⟨Nat.not_lt.mpr hlow, Nat.not_lt.mpr hhigh⟩),
    if_neg hrate, setClock_stored hf hlt (Nat.pos_of_ne_zero hrate)] at h
  cases h
  rfl

/-- The stored rate is the clock, or half of it at most. -/
theorem stored_cases (hf : 2 ≤ f) (hr : 0 < rate) (current : ℕ) :
    stored f rate current = f ∧ f / 2 < rate ∧ current = f ∨
      0 < stored f rate current ∧ stored f rate current ≤ f / 2 := by
  unfold stored
  split
  · split
    · exact .inl ⟨rfl, ‹_›, ‹_›⟩
    · exact .inr ⟨by omega, le_rfl⟩
  · have hle : ¬ f / 2 < rate := ‹_›
    split
    · exact .inr ⟨hr, Nat.not_lt.mp hle⟩
    · have htwo : 2 ≤ wanted f rate := two_le_wanted hr hle
      exact .inr ⟨rate_pos (by omega) (wanted_le hr), Nat.div_le_div_left htwo (by decide)⟩

/-- The rate stays at half the clock or less. -/
theorem dw_setcfg_settled (hf : 2 ≤ spi.input_clk) (hlt : spi.input_clk < 2 ^ 32)
    (h : dw_setcfg cs_max spi dev cfg = some (.eok, dev'))
    (hcur : dev.current_clkrate ≤ spi.input_clk / 2) :
    dev'.current_clkrate ≤ spi.input_clk / 2 := by
  obtain ⟨-, hok, rfl⟩ := dw_setcfg_stored hf hlt h
  rcases stored_cases hf (Nat.pos_of_ne_zero hok.2.2) dev.current_clkrate with
    ⟨-, -, heq⟩ | ⟨-, hle⟩
  · omega
  · exact hle

/-- **A second `dw_cfg`** changes nothing. -/
theorem dw_cfg_again (hf : 2 ≤ spi.input_clk) (hlt : spi.input_clk < 2 ^ 32)
    (h : dw_setcfg cs_max spi dev cfg = some (.eok, dev')) :
      dw_cfg cs_max spi dev' = some (.eok, dev') := by
  obtain ⟨hdev, hok, rfl⟩ := dw_setcfg_stored hf hlt h
  obtain ⟨hlow, hhigh, hrate⟩ := hok
  have hcases := stored_cases hf (Nat.pos_of_ne_zero hrate) dev.current_clkrate
  generalize stored spi.input_clk cfg.clock_rate dev.current_clkrate = q at hcases
  have hsame : (if spi.input_clk / 2 < q then spi.input_clk % 2 ^ 32 else q) = q := by
    rw [Nat.mod_eq_of_lt hlt]
    split
    · omega
    · rfl
  unfold dw_cfg
  dsimp only
  rw [if_neg (Nat.not_le.mpr hdev), if_neg (not_or.mpr ⟨Nat.not_lt.mpr hlow, Nat.not_lt.mpr hhigh⟩),
    if_neg (show q ≠ 0 by omega), hsame, setClock, if_neg (not_not.mpr rfl)]
  rfl

/-! ### What is written -/

/-- The divisor for the rate of a configuration, as it is written. -/
def baudr (spi : DwSpi) (cfg : Cfg) : BitVec 32 := BitVec.ofNat 32 (spi.input_clk / cfg.clock_rate)

section Written

open Prog (Triple)

variable {ρ H : Type} {D : Device ρ Reg H} {A : ρ → Prop}

/-- A transfer that is prepared has the divisor for its rate in `BAUDR`. -/
theorem prepare_baudr (tnbytes rnbytes : ℕ) :
    Triple A (fun g => g.soft = spi) (dw_prepare_for_transfer (recorded D) cfg tnbytes rnbytes)
      fun ok g => ok = true → g.hard.2 .baudr = some (baudr spi cfg) :=
  (prepare_programs tnbytes rnbytes).mono (fun _ hg => hg ▸ ⟨rfl, rfl, rfl⟩) fun _ _ hprog hok =>
    (hprog hok).baudr

end Written

/-- What is written is a divisor of the controller, and without its lowest bit it gives a clock no
faster than `rate`, if one of the controller does. -/
structure Driven (f rate : ℕ) (b : BitVec 32) : Prop where
  min : DW_SCK_DIV_MIN ≤ b.toNat
  max : b.toNat ≤ DW_SCK_DIV_MAX
  slow : f ≤ rate * (DW_SCK_DIV_MAX - 1) → f ≤ rate * (b.toNat / 2 * 2)

/-- The requests that come out well, by the rate of before.  One for more than half the clock does.
For the rate that is stored the clock is to be an even multiple.  Any other is to have a divisor
that is even, or one that the stored rate does not give again, and the divisor it does give is to be
one of the controller. -/
def Divides (f rate current : ℕ) : Prop :=
  if f / 2 < rate then current ≠ f
  else if current = rate then f < (DW_SCK_DIV_MAX + 1) * rate ∧
    (f ≤ rate * (DW_SCK_DIV_MAX - 1) → 2 * rate ∣ f)
  else f < (DW_SCK_DIV_MAX + 1) * (f / wanted f rate) ∧
    (f ≤ rate * (DW_SCK_DIV_MAX - 1) → wanted f rate % 2 = 0 ∨
    (wanted f rate + 1) * (f / wanted f rate) ≤ f)

instance (f rate current : ℕ) : Decidable (Divides f rate current) :=
  inferInstanceAs (Decidable (@ite _ (f / 2 < rate) _ _ (@ite _ (current = rate) _ _ _)))

/-- `Driven`, about the divisor as a number. -/
theorem driven_iff {n : ℕ} (hn : n < 2 ^ 32) :
    Driven f rate (BitVec.ofNat 32 n) ↔
      2 ≤ n ∧ n < DW_SCK_DIV_MAX + 1 ∧
      (f ≤ rate * (DW_SCK_DIV_MAX - 1) → f ≤ rate * (n / 2 * 2)) := by
  have hval : (BitVec.ofNat 32 n).toNat = n := Nat.mod_eq_of_lt hn
  constructor
  · rintro ⟨hmin, hmax, hslow⟩
    rw [hval] at hmin hmax hslow
    exact ⟨hmin, Nat.lt_succ_of_le hmax, hslow⟩
  · rintro ⟨hmin, hmax, hslow⟩
    exact ⟨hval.symm ▸ hmin, hval.symm ▸ Nat.le_of_lt_succ hmax, hval.symm ▸ hslow⟩

/-- The divisor for half the clock. -/
theorem driven_half (hf : 2 ≤ f) (hlt : f < 2 ^ 32) (hfast : f / 2 < rate) :
    Driven f rate (BitVec.ofNat 32 (f / (f / 2))) := by
  have hge : 2 ≤ f / (f / 2) := le_redivide (by decide) hf
  have hle : f / (f / 2) < 4 := (redivide_lt_iff (by decide) hf).mpr (by omega)
  refine (driven_iff (by omega)).mpr ⟨hge, by unfold DW_SCK_DIV_MAX; omega, fun _ => ?_⟩
  have heven : f / (f / 2) / 2 * 2 = 2 := by omega
  rw [heven]
  omega

/-- The divisor for a rate that is taken as it is. -/
theorem driven_same (hlt : f < 2 ^ 32) (hr : 0 < rate) (hle : ¬ f / 2 < rate) :
    Driven f rate (BitVec.ofNat 32 (f / rate)) ↔
      f < (DW_SCK_DIV_MAX + 1) * rate ∧ (f ≤ rate * (DW_SCK_DIV_MAX - 1) → 2 * rate ∣ f) := by
  have hge : 2 ≤ f / rate := (Nat.le_div_iff_mul_le hr).mpr (by omega)
  rw [driven_iff ((Nat.div_le_self f rate).trans_lt hlt), le_even_div_iff hr,
    Nat.div_lt_iff_lt_mul hr]
  exact and_iff_right hge

/-- The divisor for a rate that was computed. -/
theorem driven_wanted (hlt : f < 2 ^ 32) (hr : 0 < rate) (hle : ¬ f / 2 < rate) :
    Driven f rate (BitVec.ofNat 32 (f / (f / wanted f rate))) ↔
      f < (DW_SCK_DIV_MAX + 1) * (f / wanted f rate) ∧
      (f ≤ rate * (DW_SCK_DIV_MAX - 1) → wanted f rate % 2 = 0 ∨
      (wanted f rate + 1) * (f / wanted f rate) ≤ f) := by
  have htwo : 2 ≤ wanted f rate := two_le_wanted hr hle
  have hpos : 0 < wanted f rate := Nat.lt_of_lt_of_le (by decide) htwo
  have hge : 2 ≤ f / (f / wanted f rate) := htwo.trans (le_redivide hpos (wanted_le hr))
  have hlast : f / (f / wanted f rate) < 2 ^ 32 := (Nat.div_le_self f _).trans_lt hlt
  have hmax : f / (f / wanted f rate) < DW_SCK_DIV_MAX + 1 ↔ _ :=
    redivide_lt_iff hpos (wanted_le hr)
  rw [driven_iff hlast, hmax, and_iff_right hge]
  refine and_congr_right fun _ => imp_congr_right fun hslow => ?_
  -- a divisor below the last one is not clamped
  have hceil : wanted f rate = (f + rate - 1) / rate :=
    min_eq_left (((le_rate_mul_iff hr).mp hslow).trans (by decide))
  rw [hceil]
  exact le_even_iff hr (by omega)

/-- **A request** that is accepted, from any rate of before: a transfer writes the divisor for the
rate that is stored and a second `dw_cfg` changes nothing, and the divisor is as it is to be for
just the requests of `Divides`. -/
theorem baudr_iff {ρ H : Type} (D : Device ρ Reg H) (hf : 2 ≤ spi.input_clk)
    (hlt : spi.input_clk < 2 ^ 32) (h : dw_setcfg cs_max spi dev cfg = some (.eok, dev')) :
    (∀ tnbytes rnbytes, Prog.Triple (fun _ => True) (fun g => g.soft = spi)
      (dw_prepare_for_transfer (recorded D) dev'.cfg tnbytes rnbytes) fun ok g =>
        ok = true → g.hard.2 .baudr = some (baudr spi dev'.cfg)) ∧
    (Driven spi.input_clk cfg.clock_rate (baudr spi dev'.cfg) ∧
      dw_cfg cs_max spi dev' = some (.eok, dev') ↔
      Divides spi.input_clk cfg.clock_rate dev.current_clkrate) := by
  refine ⟨fun tnbytes rnbytes => prepare_baudr tnbytes rnbytes, ?_⟩
  have hagain : dw_cfg cs_max spi dev' = some (.eok, dev') := dw_cfg_again hf hlt h
  obtain ⟨-, ⟨-, -, hrate⟩, rfl⟩ := dw_setcfg_stored hf hlt h
  have hr : 0 < cfg.clock_rate := Nat.pos_of_ne_zero hrate
  rw [and_iff_left hagain]
  unfold baudr Divides
  dsimp only [stored]
  split
  · split
    · have hone : spi.input_clk / spi.input_clk = 1 := Nat.div_self (by omega)
      have hmin : ¬ Driven spi.input_clk cfg.clock_rate (BitVec.ofNat 32 1) :=
        fun hd => absurd hd.min (by decide)
      rw [hone]
      exact iff_of_false hmin (not_not.mpr ‹_›)
    · exact iff_of_true (driven_half hf hlt ‹_›) ‹_›
  · split
    · exact driven_same hlt hr ‹_›
    · exact driven_wanted hlt hr ‹_›

/-- A quarter of a clock of 50 MHz. -/
theorem baudr_iff_quarter :
    ∃ dev', dw_setcfg 1 fresh.soft byteDev ⟨8, false, false, 12500000⟩ = some (.eok, dev') ∧
      Divides fresh.soft.input_clk 12500000 byteDev.current_clkrate ∧
      (∀ tnbytes rnbytes, Prog.Triple (fun _ => True) (fun g => g.soft = fresh.soft)
        (dw_prepare_for_transfer (recorded echo) dev'.cfg tnbytes rnbytes) fun ok g =>
          ok = true → g.hard.2 .baudr = some (baudr fresh.soft dev'.cfg)) ∧
      (Driven fresh.soft.input_clk 12500000 (baudr fresh.soft dev'.cfg) ∧
          dw_cfg 1 fresh.soft dev' = some (.eok, dev') ↔
        Divides fresh.soft.input_clk 12500000 byteDev.current_clkrate) :=
  ⟨_, rfl, by decide, @baudr_iff 1 fresh.soft byteDev _ ⟨8, false, false, 12500000⟩ _ _ echo
    (by decide) (by decide) rfl⟩

/-- With a clock of 50 MHz, 20 MHz gives the divisor 3, of which the controller drops a bit, and the
clock is 25 MHz; and 700 Hz gives a divisor with more bits than the register has. -/
theorem baudr_faster :
    (∃ dev', dw_setcfg 1 fresh.soft byteDev ⟨8, false, false, 20000000⟩ = some (.eok, dev') ∧
      baudr fresh.soft dev'.cfg = 3 ∧
      ¬ Driven fresh.soft.input_clk 20000000 (baudr fresh.soft dev'.cfg)) ∧
    (∃ dev', dw_setcfg 1 fresh.soft byteDev ⟨8, false, false, 700⟩ = some (.eok, dev') ∧
      baudr fresh.soft dev'.cfg = 65616 ∧
      ¬ Driven fresh.soft.input_clk 700 (baudr fresh.soft dev'.cfg)) := by
  refine ⟨⟨_, rfl, by decide, fun h => ?_⟩, ⟨_, rfl, by decide, fun h => ?_⟩⟩
  · exact absurd (h.slow (by decide)) (by decide)
  · exact absurd h.max (by decide)

end Spi
