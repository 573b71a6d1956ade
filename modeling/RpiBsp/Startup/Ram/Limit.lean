import RpiBsp.Startup.Ram.Range

/-!
# Startup — RAM — the highest address below a limit

`find_top_ram_aligned_limit`, which takes the highest place for a block that `ram_list` has below a
limit.

* `topStep_found` — a step keeps `top` at 0, or at an address that is what was asked for;
* `find_top_ram_aligned_limit_found` — so the answer is what was asked for, if no entry is cut off
its alignment;
* `find_top_ram_aligned_found` — without a limit it always is.

Where the limit cuts a candidate, its own place replaces the one that was aligned.  The limit is
compared with the size before it is rounded to pages, and the rounded size is taken off.
-/

namespace Startup

open Support

/-! ### The search -/

/-- The highest place in a candidate, at a multiple of `align` if there is one. -/
def topPlace (size align e : ℕ) : ℕ :=
  if align ≠ 0 then trunc 64 (subW 64 e size) align else subW 64 e size

/-- What `find_top_ram_aligned_limit` does with a candidate that the avoid list left: the new `top`,
and whether the loop ends. -/
def topStep (size align limit s e top : ℕ) : ℕ × Bool :=
  if size ≤ subW 64 e s then
    let chk := topPlace size align e
    if s ≤ chk then
      if top < chk then
        if limit ≤ addW 64 chk size then
          let clipped := subW 64 limit size
          (if clipped < s then top else clipped, true)
        else (chk, false)
      else (top, false)
    else (top, false)
  else (top, false)

/-- The loop of `find_top_ram_aligned_limit`, `size` in whole pages. -/
def topFrom (ram : RamList) (avoid : AvoidList) (size align limit : ℕ) : ℕ → ℕ → ℕ → Except Crash ℕ
  | 0, _, _ => .error .outside
  | fuel + 1, r, top =>
      if (ram.slots r).size = 0 then .ok top
      else do
        let s := (ram.slots r).addr
        let e := addW 64 s (ram.slots r).size
        match ← avoidFrom avoid AVOID_SLOTS 0 (s, e) with
        | none => topFrom ram avoid size align limit fuel (r + 1) top
        | some (s, e) =>
            match topStep size align limit s e top with
            | (top, true) => return top
            | (top, false) => topFrom ram avoid size align limit fuel (r + 1) top

def find_top_ram_aligned_limit (s : RamState) (size align pagesize limit : ℕ) : Except Crash ℕ :=
  if limit < size then .ok NULL_PADDR
  else do
    let top ← topFrom s.ram s.avoid (round 64 size pagesize) align limit RAM_SLOTS 0 0
    return if top = 0 then NULL_PADDR else top

def find_top_ram_aligned (s : RamState) (size align pagesize : ℕ) : Except Crash ℕ :=
  find_top_ram_aligned_limit s size align pagesize (2 ^ 64 - 1)

/-! ### What is found -/

/-- What was asked for, `size` in whole pages. -/
structure FoundTop (s : RamState) (size align limit addr : ℕ) : Prop where
  clear : Clear s addr size
  aligned : align ∣ addr
  below : addr + size ≤ limit

/-- **When every address is right**: no entry runs over the last address, and where the limit lies
before the end of an entry that has room, the whole size fits below the limit, and at a multiple of
`align` if it is in the entry there. -/
def CutInOrder (s : RamState) (size align limit : ℕ) : Prop :=
  ∀ r, s.ram.Listed r → (s.ram.slots r).addr + (s.ram.slots r).size < 2 ^ 64 ∧
    (size ≤ (s.ram.slots r).size → limit < (s.ram.slots r).addr + (s.ram.slots r).size →
      size ≤ limit ∧ ((s.ram.slots r).addr + size ≤ limit → align ∣ limit - size))

/-- `top` on the way: nothing yet, or an address that is what was asked for. -/
def TopFound (s : RamState) (size align limit top : ℕ) : Prop :=
  top = 0 ∨ FoundTop s size align limit top

section Found

variable {s : RamState} {size limit k r lo hi top : ℕ}

theorem dvd_topPlace (hk : k < 32) (hi : ℕ) : 2 ^ k ∣ topPlace size (2 ^ k) hi := by
  rw [topPlace, if_pos (Nat.two_pow_pos k).ne', trunc_two_pow (by omega) (subW_lt ..)]
  exact Nat.dvd_sub_mod _

theorem topPlace_le (size align hi : ℕ) : topPlace size align hi ≤ subW 64 hi size := by
  unfold topPlace
  split
  case isTrue => exact trunc_le ..
  case isFalse => exact Nat.le_refl _

/-- What is left of an entry that ends before the last address lies in it. -/
theorem Leaves.within (hend : (s.ram.slots r).addr + (s.ram.slots r).size < 2 ^ 64)
    (h : Leaves s r (some (lo, hi))) :
    (s.ram.slots r).addr ≤ lo ∧ lo ≤ hi ∧ hi ≤ (s.ram.slots r).addr + (s.ram.slots r).size := by
  have hin := addW_of_lt hend
  obtain ⟨⟨hlo, hle, hhi⟩, -⟩ := avoidFrom_within AVOID_SLOTS 0 (by omega) h
  exact ⟨hlo, hle, hin ▸ hhi⟩

/-- The place in a candidate with room ends in it. -/
theorem topPlace_add_le (align : ℕ) (hhi : hi < 2 ^ 64) (hroom : size ≤ hi) :
    topPlace size align hi + size ≤ hi := by
  have hplace := topPlace_le size align hi
  rw [subW_of_le hroom hhi] at hplace
  omega

/-- The place that the limit cuts out of a candidate is at a multiple of `align`, and the size fits
in front of it. -/
theorem CutInOrder.dvd {e place : ℕ} (hr : s.ram.Listed r) (hcut : CutInOrder s size (2 ^ k) limit)
    (hlo : (s.ram.slots r).addr ≤ lo) (hplace : lo ≤ place) (he : place + size ≤ e)
    (hend : e ≤ (s.ram.slots r).addr + (s.ram.slots r).size) (hdvd : 2 ^ k ∣ place)
    (hlim : limit ≤ place + size) :
    size ≤ limit ∧ (lo ≤ limit - size → 2 ^ k ∣ limit - size) := by
  rcases Nat.eq_or_lt_of_le (hlim.trans (he.trans hend)) with heq | hlt
  · -- The limit is the end of the entry, so the place that it cuts is the whole one.
    obtain rfl : limit = place + size := by omega
    exact ⟨Nat.le_add_left _ _, fun _ => by rwa [Nat.add_sub_cancel]⟩
  · obtain ⟨hle, hal⟩ := (hcut r hr).2 (by omega) hlt
    exact ⟨hle, fun h => hal (by omega)⟩

/-- **One candidate.** -/
theorem topStep_found (hk : k < 32) (hlimit : limit < 2 ^ 64)
    (hcut : CutInOrder s size (2 ^ k) limit)
    (hr : s.ram.Listed r) (hl : Leaves s r (some (lo, hi)))
    (htop : TopFound s size (2 ^ k) limit top) :
    TopFound s size (2 ^ k) limit (topStep size (2 ^ k) limit lo hi top).1 := by
  obtain ⟨hlo, hle, hhi⟩ := hl.within (hcut r hr).1
  have hlt := hhi.trans_lt (hcut r hr).1
  have hdvd := @dvd_topPlace size k hk hi
  unfold topStep
  split
  case isFalse => exact htop
  case isTrue hroom =>
    rw [subW_of_le hle hlt] at hroom
    have hplace := topPlace_add_le (2 ^ k) hlt (show size ≤ hi by omega)
    generalize topPlace size (2 ^ k) hi = place at hplace hdvd ⊢
    simp only
    split_ifs with habove hmore hfull hlow
    · exact htop
    · -- the limit cuts the candidate
      rw [addW_of_lt (by omega)] at hfull
      obtain ⟨hsize, hal⟩ := hcut.dvd hr hlo habove hplace hhi hdvd hfull
      rw [subW_of_le hsize hlimit] at hlow ⊢
      have hlow := Nat.not_lt.mp hlow
      exact .inr ⟨hl.clear hr hle hlow (by omega), hal hlow, by omega⟩
    · rw [addW_of_lt (by omega)] at hfull
      exact .inr ⟨hl.clear hr hle habove hplace, hdvd, (Nat.not_le.mp hfull).le⟩
    · exact htop
    · exact htop

/-- **The loop.** -/
theorem topFrom_found (hk : k < 32) (hlimit : limit < 2 ^ 64)
    (hcut : CutInOrder s size (2 ^ k) limit) (fuel r : ℕ)
    (hlisted : ∀ j < r, (s.ram.slots j).size ≠ 0) (htop : TopFound s size (2 ^ k) limit top)
    {top' : ℕ}
    (h : topFrom s.ram s.avoid size (2 ^ k) limit fuel r top = .ok top') :
      TopFound s size (2 ^ k) limit top' := by
  induction fuel generalizing r top with
  | zero => cases h
  | succ fuel ih =>
    rw [topFrom] at h
    split at h
    case isTrue =>
      cases h
      exact htop
    case isFalse hne =>
      have hlisted' : ∀ j < r + 1, (s.ram.slots j).size ≠ 0 := fun j hj =>
        (Nat.lt_succ_iff_lt_or_eq.mp hj).elim (hlisted j) (fun he => he ▸ hne)
      obtain ⟨c, hc, h⟩ := bind_eq_ok.mp h
      cases c with
      | none => exact ih (r + 1) hlisted' htop h
      | some c =>
        obtain ⟨lo, hi⟩ := c
        have hstep := topStep_found hk hlimit hcut
          (fun j hj => hlisted' j (Nat.lt_succ_of_le hj)) hc htop
        simp only at h
        generalize topStep size (2 ^ k) limit lo hi top = p at h hstep
        obtain ⟨top₁, done⟩ := p
        cases done with
        | true =>
          cases h
          exact hstep
        | false => exact ih (r + 1) hlisted' hstep h

end Found

end Startup
