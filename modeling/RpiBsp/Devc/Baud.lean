import RpiBsp.Devc.Definitions
import RpiBsp.Support.Divider

/-!
# Devc — the divisors of the clock

`ser_stty` divides the clock by the rate that the library asks for: an integer part for `IBRD`, and
a fraction of six bits for `FBRD`, which is rounded by itself.

* `ser_stty_divisors` — the divisors that a call leaves;
* `ser_stty_suits_iff` — **main**: they are the ones nearest to the rate, and nothing wraps,
  exactly for the rates in `Fair`.
-/

namespace Devc

open Support Driver

/-! ### The divisors of a call -/

/-- The divisors are set, and no others are from then on. -/
theorem setRegisters_divisors (cr lcr_h : BitVec 32) (ibrd fbrd : ℕ) {P : DevPl011 → Prop} :
    Soft P (setRegisters cr lcr_h ibrd fbrd) fun _ dev => dev.ibrd = ibrd ∧ dev.fbrd = fbrd := by
  have hready : ∀ (I : DevPl011 → Prop) t, Stays I (chipReady t) := by
    intro I t
    induction t with
    | zero => exact .bind .read32 fun _ => .bind .read32 fun _ => .pure _
    | succ t ih => exact .bind .read32 fun _ => .ite ih (.pure _)
  unfold setRegisters
  refine Soft.bind (Q := fun _ dev => dev.ibrd = ibrd ∧ dev.fbrd = fbrd)
    (Soft.update fun _ _ => ⟨rfl, rfl⟩) fun _ => ?_
  refine Stays.bind .soft fun _ => Stays.bind (.doIf (hready _ _)) fun _ => ?_
  refine Stays.bind .write32 fun _ => Stays.bind .write32 fun _ => Stays.bind .read32 fun _ => ?_
  refine Stays.bind .write32 fun _ =>
    Stays.bind (.doIf (.bind .write32 fun _ => .write32)) fun _ => ?_
  refine Stays.bind .write32 fun _ => Stays.bind .write32 fun _ => Stays.bind .write32 fun _ => ?_
  exact Stays.bind .write32 fun _ => Stays.bind .write32 fun _ => .write32

/-- What a call leaves in `ibrd` and `fbrd`, if it returns, and when it does. -/
theorem ser_stty_divisors (d : DevPl011) :
    Soft (fun dev => dev = d) ser_stty fun ok dev =>
      ok = d.divisors.isSome ∧ (ok = true → d.divisors = some (dev.ibrd, dev.fbrd)) := by
  refine Soft.soft_bind fun dev hdev => ?_
  subst hdev
  rcases hdiv : dev.divisors with _ | ⟨ibrd, fbrd⟩
  · exact Soft.pure fun _ _ => ⟨rfl, fun h => absurd h (by decide)⟩
  refine Soft.bind (Q := fun _ dev' => dev'.ibrd = dev.ibrd ∧ dev'.fbrd = dev.fbrd)
    (Soft.update fun dev' hdev' => hdev' ▸ ⟨rfl, rfl⟩) fun _ => ?_
  refine Soft.bind (Q := fun _ dev' => dev'.ibrd = ibrd ∧ dev'.fbrd = fbrd) ?_ fun _ => Soft.pure ?_
  · refine Soft.doIf (fun _ => setRegisters_divisors _ _ _ _) fun hsame dev' hdev' => ?_
    obtain ⟨-, -, hibrd, hfbrd⟩ := not_not.mp hsame
    exact ⟨hdev'.1.trans hibrd.symm, hdev'.2.trans hfbrd.symm⟩
  · rintro dev' ⟨rfl, rfl⟩
    exact ⟨rfl, fun _ => rfl⟩

/-! ### The rate -/

/-- The divisors are the right ones for a rate: the fraction has six bits, both together are a
nearest integer to 64 times the quotient, and no step of the computation wraps. -/
structure Suits (clock baud ibrd fbrd : ℕ) : Prop where
  half : baud + 1 < 2 ^ 32
  sum : clock % baud * 64 + (baud + 1) / 2 < 2 ^ 32
  fraction : fbrd ≤ 63
  nearest : Nearest (64 * clock) baud (64 * ibrd + fbrd)

/-- The rates that come out well: the remainder times 64, rounded, is below 64 rates and fits a
word, and is not just below half of an odd rate. -/
def Fair (clock baud : ℕ) : Prop :=
  baud + 1 < 2 ^ 32 ∧ clock % baud * 64 + (baud + 1) / 2 < min (2 ^ 32) (64 * baud) ∧
    2 * (64 * clock % baud) + 1 ≠ baud

instance (clock baud : ℕ) : Decidable (Fair clock baud) := inferInstanceAs (Decidable (_ ∧ _ ∧ _))

theorem suits_iff {clock baud : ℕ} (hpos : 0 < baud) :
    Suits clock baud (clock / baud)
      ((clock % baud * 64 + (baud + 1) % 2 ^ 32 / 2) % 2 ^ 32 / baud) ↔ Fair clock baud := by
  -- the integer part is a multiple of the rate, so the fraction alone has to be nearest
  have hsplit : 64 * clock = 64 * (clock % baud) + 64 * (clock / baud) * baud := by
    rw [Nat.mul_assoc, ← Nat.mul_add, Nat.mod_add_div' clock baud]
  have hnearest (v : ℕ) : Nearest (64 * clock) baud (64 * (clock / baud) + v) ↔
      Nearest (64 * (clock % baud)) baud v := by
    rw [hsplit, Nat.add_comm _ v, nearest_add_mul_iff]
  have hrem : 64 * (clock % baud) % baud = 64 * clock % baud := Nat.mul_mod_mod 64 clock baud
  have hvalue (hhalf : baud + 1 < 2 ^ 32) (hsum : clock % baud * 64 + (baud + 1) / 2 < 2 ^ 32) :
      (clock % baud * 64 + (baud + 1) % 2 ^ 32 / 2) % 2 ^ 32 / baud =
        (64 * (clock % baud) + (baud + 1) / 2) / baud := by
    rw [Nat.mod_eq_of_lt hhalf, Nat.mod_eq_of_lt hsum, Nat.mul_comm]
  constructor
  · rintro ⟨hhalf, hsum, hfrac, hnear⟩
    rw [hvalue hhalf hsum] at hfrac hnear
    rw [hnearest, nearest_half_iff hpos, hrem] at hnear
    have hlt : 64 * (clock % baud) + (baud + 1) / 2 < 64 * baud :=
      (Nat.div_lt_iff_lt_mul hpos).mp (Nat.lt_succ_of_le hfrac)
    exact ⟨hhalf, lt_min hsum (by omega), hnear⟩
  · rintro ⟨hhalf, hsum, hne⟩
    obtain ⟨hfit, hlt⟩ := lt_min_iff.mp hsum
    refine ⟨hhalf, hfit, ?_, ?_⟩
    · rw [hvalue hhalf hfit, Nat.mul_comm 64]
      exact Nat.le_of_lt_succ ((Nat.div_lt_iff_lt_mul hpos).mpr hlt)
    · rw [hvalue hhalf hfit, hnearest, nearest_half_iff hpos, hrem]
      exact hne

section Call

variable {g : Rig DevPl011 Regs}

/-- A call for a new rate returns, with the divisors computed from it. -/
theorem ser_stty_new (hdiv : 0 < g.soft.div) (hpos : 0 < g.soft.tty.baud)
    (hnew : g.soft.baud ≠ g.soft.tty.baud) (a : ℕ → BitVec 32) (n : ℕ) :
    (ser_stty a (g, n)).1 = true ∧
      (ser_stty a (g, n)).2.1.soft.ibrd = g.soft.clk / g.soft.div / g.soft.tty.baud ∧
      (ser_stty a (g, n)).2.1.soft.fbrd = (g.soft.clk / g.soft.div % g.soft.tty.baud * 64 +
        (g.soft.tty.baud + 1) % 2 ^ 32 / 2) % 2 ^ 32 / g.soft.tty.baud := by
  obtain ⟨hsome, hset⟩ := ser_stty_divisors g.soft a g n rfl
  have hdivisors : g.soft.divisors.isSome = true := by
    rw [DevPl011.divisors, if_neg hnew, if_neg (not_or.mpr ⟨hdiv.ne', hpos.ne'⟩)]
    rfl
  have hok := hsome.trans hdivisors
  have heq := hset hok
  rw [DevPl011.divisors, if_neg hnew, if_neg (not_or.mpr ⟨hdiv.ne', hpos.ne'⟩)] at heq
  obtain ⟨hibrd, hfbrd⟩ := Prod.mk.inj (Option.some.inj heq)
  exact ⟨hok, hibrd.symm, hfbrd.symm⟩

/-- **The divisors of a call** for a new rate are the right ones exactly for a fair rate. -/
theorem ser_stty_suits_iff (hdiv : g.soft.div = 8 ∨ g.soft.div = 16) (hpos : 0 < g.soft.tty.baud)
    (hnew : g.soft.baud ≠ g.soft.tty.baud) (a : ℕ → BitVec 32) (n : ℕ) :
    (ser_stty a (g, n)).1 = true ∧
      (Suits (g.soft.clk / g.soft.div) g.soft.tty.baud (ser_stty a (g, n)).2.1.soft.ibrd
        (ser_stty a (g, n)).2.1.soft.fbrd ↔ Fair (g.soft.clk / g.soft.div) g.soft.tty.baud) := by
  have hdiv' : 0 < g.soft.div := by omega
  obtain ⟨hok, hibrd, hfbrd⟩ := ser_stty_new hdiv' hpos hnew a n
  refine ⟨hok, ?_⟩
  rw [hibrd, hfbrd]
  exact suits_iff hpos

end Call

/-- A terminal that asks for a rate, on a UART of 24 MHz that was never set up. -/
def fresh (baud : ℕ) : DevPl011 where
  tty := ⟨⟨fun _ => 0, 0, 0, 0⟩, ⟨.cs8, false, false, false, false, false⟩, baud, false, false⟩
  fifosize := 0
  fifo := 0
  clk := 24000000
  div := 16
  baud := 0
  lcr_h := 0
  ibrd := 0
  fbrd := 0
  cr := 0
  imr := 0
  loopback := false

/-- 115200 baud are a fair rate, and the divisors are the right ones. -/
theorem ser_stty_suits_fresh :
    (ser_stty (fun _ => 0) (⟨fresh 115200, fun _ => 0⟩, 0)).1 = true ∧
      Suits 1500000 115200 (ser_stty (fun _ => 0) (⟨fresh 115200, fun _ => 0⟩, 0)).2.1.soft.ibrd
        (ser_stty (fun _ => 0) (⟨fresh 115200, fun _ => 0⟩, 0)).2.1.soft.fbrd := by
  have hfair : Fair 1500000 115200 := by decide
  obtain ⟨hok, hiff⟩ :=
    ser_stty_suits_iff (g := ⟨fresh 115200, fun _ => 0⟩) (.inr rfl) (by decide) (by decide)
      (fun _ => 0) 0
  exact ⟨hok, hiff.mpr hfair⟩

/-- At 750001 baud the remainder rounds to a whole, which six bits do not hold. -/
theorem fraction_carries :
    ¬ ∀ (g : Rig DevPl011 Regs) (a : ℕ → BitVec 32) (n : ℕ), g.soft.div = 8 ∨ g.soft.div = 16 →
      0 < g.soft.tty.baud →
      g.soft.baud ≠ g.soft.tty.baud →
      Suits (g.soft.clk / g.soft.div) g.soft.tty.baud (ser_stty a (g, n)).2.1.soft.ibrd
        (ser_stty a (g, n)).2.1.soft.fbrd := by
  intro h
  have hsuits := h ⟨fresh 750001, fun _ => 0⟩ (fun _ => 0) 0 (.inr rfl) (by decide) (by decide)
  obtain ⟨-, -, hfbrd⟩ :=
    @ser_stty_new ⟨fresh 750001, fun _ => 0⟩ (by decide) (by decide) (by decide) (fun _ => 0) 0
  have hfraction := hsuits.fraction
  rw [hfbrd] at hfraction
  exact absurd hfraction (by decide)

end Devc
