import RpiBsp.Support.Memory
import RpiBsp.Support.Word

/-!
# Startup — copy_memory

`copy_memory` of `memfuncs.c` copies in rounds of at most `max` bytes.  `max` is the length, but in
an `unsigned`: for a length from 4 GiB on it is what remains modulo `2 ^ 32`, and if nothing
remains, no round copies anything.

The memory is a type `M` with a `memmove` and a way to read its bytes (`Moves`).

* `copyLoop_rule`, `copyLoop_copied`, `copyLoop_rel` — what the loop has done when it ends;
* `copyLoop_stuck`, `copyLoop_ends` — when it ends;
* `copy_memory_iff` — when the copy is made.
-/

namespace Startup

open Support

/-- The bytes after a `memmove`.  Where the source wraps, it goes on at 0. -/
def moved (d s n : ℕ) (f : ℕ → UInt8) (x : ℕ) : UInt8 :=
  if d ≤ x ∧ x < d + n then f (addW 64 s (x - d)) else f x

section Code

variable {M : Type*} (memmove : ℕ → ℕ → ℕ → M → M)

/-- The loop of `copy_memory`, for some rounds; there is no result if they do not suffice. -/
def copyLoop (max : ℕ) : ℕ → ℕ → ℕ → ℕ → M → Option M
  | 0, _, _, _, _ => none
  | rounds + 1, dst, src, len, m =>
      let amount := if max < len then max else len
      let m := memmove dst src amount m
      if len - amount = 0 then some m
      else copyLoop max rounds (addW 64 dst amount) (addW 64 src amount) (len - amount) m

/-- `max = len`. -/
def maxAmount (len : ℕ) : ℕ := len % 2 ^ 32

/-- `copy_memory`; there is no result if the loop does not end. -/
def copy_memory (dst src len : ℕ) (m : M) : Option M :=
  copyLoop memmove (maxAmount len) (len + 1) dst src len m

end Code

/-! ### A copy -/

section Copies

variable {M : Type*} {memmove : ℕ → ℕ → ℕ → M → M} {byte : M → ℕ → UInt8}

/-- What `memmove` does to the bytes. -/
def Moves (memmove : ℕ → ℕ → ℕ → M → M) (byte : M → ℕ → UInt8) : Prop :=
  ∀ d s n m, byte (memmove d s n m) = moved d s n (byte m)

/-- The bytes were copied, as far as the source is not written to, and no others were changed. -/
structure Copied (dst src len : ℕ) (f f' : ℕ → UInt8) : Prop where
  bytes : ∀ j < len, ¬ (dst ≤ addW 64 src j ∧ addW 64 src j < dst + len) →
    f' (dst + j) = f (addW 64 src j)
  frame : ∀ x, ¬ (dst ≤ x ∧ x < dst + len) → f' x = f x

theorem copied_moved (dst src len : ℕ) (f : ℕ → UInt8) :
    Copied dst src len f (moved dst src len f) where
  bytes j hj _ := by
    rw [moved, if_pos (by omega), Nat.add_sub_cancel_left]
  frame x hx := if_neg hx

theorem addW_addW (a b c : ℕ) : addW 64 (addW 64 a b) c = addW 64 a (b + c) := by
  rw [addW, addW, Nat.mod_add_mod, Nat.add_assoc]
  rfl

/-- One copy after the other. -/
theorem Copied.append {dst src n len : ℕ} {f f' f'' : ℕ → UInt8} (hn : n ≤ len)
    (h₁ : Copied dst src n f f') (h₂ : Copied (dst + n) (addW 64 src n) (len - n) f' f'') :
    Copied dst src len f f'' where
  bytes j hj hout := by
    by_cases hlt : j < n
    · rw [h₂.frame _ (by omega), h₁.bytes j hlt (by omega)]
    · have hj' : addW 64 (addW 64 src n) (j - n) = addW 64 src j := by
        rw [addW_addW, Nat.add_sub_cancel' (not_lt.mp hlt)]
      have hrest := h₂.bytes (j - n) (by omega) (by rw [hj']; omega)
      rwa [hj', h₁.frame _ (by omega), show dst + n + (j - n) = dst + j by omega] at hrest
  frame x hx := by
    rw [h₂.frame x (by omega), h₁.frame x (by omega)]

/-- What holds of every copy of a part, and is put together from a part and the rest, holds of the
loop. -/
theorem copyLoop_rule {P : ℕ → ℕ → ℕ → M → M → Prop} (max : ℕ)
    (hpart : ∀ dst src len m, dst + len ≤ 2 ^ 64 → P dst src len m (memmove dst src len m))
    (hrest : ∀ dst src amount len m m', amount ≤ len → dst + len ≤ 2 ^ 64 →
      P dst src amount m (memmove dst src amount m) →
      P (dst + amount) (addW 64 src amount) (len - amount) (memmove dst src amount m) m' →
      P dst src len m m') :
    ∀ (rounds dst src len : ℕ) (m m' : M), dst + len ≤ 2 ^ 64 →
      copyLoop memmove max rounds dst src len m = some m' →
      P dst src len m m' := by
  intro rounds
  induction rounds with
  | zero =>
      intro dst src len m m' _ h
      cases h
  | succ rounds ih =>
      intro dst src len m m' hfit h
      have hle : (if max < len then max else len) ≤ len := by split_ifs <;> omega
      simp only [copyLoop] at h
      generalize (if max < len then max else len) = amount at h hle
      have hfirst : P dst src amount m (memmove dst src amount m) :=
        hpart dst src amount m (by omega)
      by_cases hdone : len - amount = 0
      · rw [if_pos hdone] at h
        cases h
        obtain rfl : len = amount := by omega
        exact hfirst
      · rw [if_neg hdone, addW_of_lt (show dst + amount < 2 ^ 64 by omega)] at h
        exact hrest dst src amount len m m' hle hfit hfirst (ih _ _ _ _ _ (by omega) h)

/-- **What the loop has done** when it ends. -/
theorem copyLoop_copied (hmove : Moves memmove byte) (max : ℕ) :
    ∀ (rounds dst src len : ℕ) (m m' : M),
    dst + len ≤ 2 ^ 64 → copyLoop memmove max rounds dst src len m = some m' →
    Copied dst src len (byte m) (byte m') := by
  refine copyLoop_rule (P := fun dst src len m m' => Copied dst src len (byte m) (byte m'))
    max ?_ ?_
  · intro dst src len m _
    rw [hmove]
    exact copied_moved dst src len (byte m)
  · intro dst src amount len m m' hle _ hfirst hmore
    exact hfirst.append hle hmore

/-- What every `memmove` within a range does to the memory, the loop does. -/
theorem copyLoop_rel {R : M → M → Prop} (htrans : ∀ m₁ m₂ m₃, R m₁ m₂ → R m₂ m₃ → R m₁ m₃)
    {lo hi : ℕ}
    (hhi : hi ≤ 2 ^ 64) (hmove : ∀ d s n m, lo ≤ d → d + n ≤ hi → R m (memmove d s n m)) (max : ℕ) :
    ∀ (rounds dst src len : ℕ) (m m' : M), lo ≤ dst → dst + len ≤ hi →
      copyLoop memmove max rounds dst src len m = some m' → R m m' := by
  intro rounds dst src len m m' hlo hfit h
  refine copyLoop_rule (P := fun dst _ len m m' => lo ≤ dst → dst + len ≤ hi → R m m') max ?_ ?_
    rounds dst src len m m' (by omega) h hlo hfit
  · intro dst src len m _ hlo hfit
    exact hmove dst src len m hlo hfit
  · intro dst src amount len m m' hle _ hfirst hmore hlo hfit
    exact htrans _ _ _ (hfirst hlo (by omega)) (hmore (by omega) (by omega))

/-- If no round copies anything, the loop goes on. -/
theorem copyLoop_stuck {len : ℕ} (hlen : len ≠ 0) : ∀ (rounds dst src : ℕ) (m : M),
    copyLoop memmove 0 rounds dst src len m = none := by
  intro rounds
  induction rounds with
  | zero => exact fun _ _ _ => rfl
  | succ rounds ih =>
      intro dst src m
      rw [copyLoop, if_pos (Nat.pos_of_ne_zero hlen), Nat.sub_zero, if_neg hlen]
      exact ih _ _ _

/-- Otherwise every round makes the rest smaller. -/
theorem copyLoop_ends {max : ℕ} :
    ∀ (rounds dst src len : ℕ) (m : M), max ≠ 0 ∨ len = 0 → len < rounds →
    ∃ m', copyLoop memmove max rounds dst src len m = some m' := by
  intro rounds
  induction rounds with
  | zero =>
      intro dst src len m _ hlt
      exact absurd hlt (Nat.not_lt_zero _)
  | succ rounds ih =>
      intro dst src len m hmax hlt
      rw [copyLoop]
      split_ifs with h₁ h₂ h₂
      · exact ⟨_, rfl⟩
      · exact ih _ _ _ _ (.inl (by omega)) (by omega)
      · exact ⟨_, rfl⟩
      · omega

/-- Whether the loop ends does not depend on how many rounds are allowed for. -/
theorem copyLoop_none {max rounds dst src len : ℕ} {m : M} (hlt : len < rounds)
    (h : copyLoop memmove max rounds dst src len m = none) (more : ℕ) :
    copyLoop memmove max more dst src len m = none := by
  by_cases hends : max ≠ 0 ∨ len = 0
  · obtain ⟨m', hm'⟩ := @copyLoop_ends M memmove max rounds dst src len m hends hlt
    rw [hm'] at h
    cases h
  · push Not at hends
    rw [hends.1]
    exact copyLoop_stuck hends.2 more dst src m

theorem copy_memory_none {dst src len : ℕ} {m : M} :
    copy_memory memmove dst src len m = none ↔ len ≠ 0 ∧ maxAmount len = 0 := by
  constructor
  · intro h
    by_contra hends
    obtain ⟨m', hm'⟩ := @copyLoop_ends M memmove (maxAmount len) (len + 1) dst src len m
      (show maxAmount len ≠ 0 ∨ len = 0 by omega) (Nat.lt_succ_self len)
    rw [copy_memory, hm'] at h
    cases h
  · rintro ⟨hlen, hmax⟩
    rw [copy_memory, hmax]
    exact copyLoop_stuck hlen _ dst src m

theorem copy_memory_copied (hmove : Moves memmove byte) {dst src len : ℕ} {m m' : M}
    (hfit : dst + len ≤ 2 ^ 64)
    (h : copy_memory memmove dst src len m = some m') : Copied dst src len (byte m) (byte m') :=
  copyLoop_copied hmove _ _ _ _ _ _ _ hfit h

end Copies

/-! ### Physical memory -/

/-- The call ends, in some number of rounds, and the copy is made. -/
def Copies (dst src len : ℕ) (m : ℕ → UInt8) : Prop :=
  ∃ rounds m', copyLoop moved (maxAmount len) rounds dst src len m = some m' ∧
    (∀ k < len, m' (dst + k) = m (src + k)) ∧ ∀ x, ¬ (dst ≤ x ∧ x < dst + len) → m' x = m x

/-- **When the copy is made**: unless there is something to copy and its length is a multiple of 4
GiB.  Then `max` is 0, and the loop does not end. -/
theorem copy_memory_iff {dst src len : ℕ} (hd : dst + len ≤ 2 ^ 64) (hs : src + len ≤ 2 ^ 64)
    (hapart : dst + len ≤ src ∨ src + len ≤ dst) (m : ℕ → UInt8) :
    Copies dst src len m ↔ len = 0 ∨ len % 2 ^ 32 ≠ 0 := by
  constructor
  · rintro ⟨rounds, m', h, -⟩
    by_contra hstuck
    push Not at hstuck
    rw [maxAmount, hstuck.2, copyLoop_stuck hstuck.1] at h
    cases h
  · intro hends
    have hmax : maxAmount len ≠ 0 ∨ len = 0 := hends.symm
    obtain ⟨m', hm'⟩ := @copyLoop_ends (ℕ → UInt8) moved _ (len + 1) dst src len m hmax
      (Nat.lt_succ_self len)
    have hmoves : Moves moved id := fun _ _ _ _ => rfl
    have hcopied : Copied dst src len m m' := copyLoop_copied hmoves _ _ _ _ _ _ _ hd hm'
    refine ⟨len + 1, m', hm', fun k hk => ?_, hcopied.frame⟩
    have hsrc : addW 64 src k = src + k := addW_of_lt (by omega)
    rw [hcopied.bytes k hk (by rw [hsrc]; omega), hsrc]

theorem copy_memory_iff_three : Copies 0x80000 0x1000 3 fun x => UInt8.ofNat x :=
  (copy_memory_iff (by decide) (by decide) (.inr (by decide)) _).mpr (.inr (by decide))

/-- Of 4 GiB nothing is copied. -/
theorem copy_memory_stuck :
    ∃ (dst src len : ℕ) (m : ℕ → UInt8), dst + len ≤ 2 ^ 64 ∧ src + len ≤ 2 ^ 64 ∧
    src + len ≤ dst ∧ ¬ Copies dst src len m := by
  refine ⟨2 ^ 33, 0, 2 ^ 32, fun _ => 0, by decide, by decide, by decide, ?_⟩
  rintro ⟨rounds, m', h, -⟩
  rw [show maxAmount (2 ^ 32) = 0 by decide, copyLoop_stuck (by decide)] at h
  cases h

end Startup
