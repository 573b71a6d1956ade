import Mathlib.Logic.Function.Iterate
import RpiBsp.Startup.Memfuncs

/-!
# Startup — memcpy and memmove

`memcpy.c` copies aligned ranges in words, sixteen in a round, and enters the first round at the
word that leaves whole rounds for the rest (a `switch` into a `do … while (--n > 0)`).  The number
of rounds is an `unsigned`.  `memmove.c` copies from the end if the source is before the destination
and reaches into it, and leaves the rest to `memcpy`.

* `cells`, `rounds` — the words that were copied, as one copy;
* `memcpy_iff`, `memmove_iff` — when the copy is made: always, but for aligned ranges of more than
`2 ^ 32` rounds;
* `copy_memory_memmove` — `copy_memory` with this `memmove`, which never asks it for so much.
-/

namespace Startup.Memmove

open Support

/-- The pointers `d` and `s`, and the memory. -/
structure Copy where
  d : ℕ
  s : ℕ
  m : ℕ → UInt8

/-- `*d++ = *s++`, for pointers to something of `w` bytes. -/
def Copy.cell (w : ℕ) (c : Copy) : Copy := ⟨c.d + w, c.s + w, Support.memmove c.d c.s w c.m⟩

/-- The rounds from the second on. -/
def again : ℕ → Copy → Copy
  | 0, c => c
  | n + 1, c => again n ((Copy.cell 4)^[16] c)

def memcpy (dst src nbytes : ℕ) (m : ℕ → UInt8) : ℕ → UInt8 :=
  if nbytes ≥ 4 ∧ src &&& 3 = 0 ∧ dst &&& 3 = 0 then
    let n := ((nbytes >>> 2) + 15) / 16 % 2 ^ 32
    let entry := if (nbytes >>> 2) % 16 = 0 then 16 else (nbytes >>> 2) % 16
    let c := again (subW 32 n 1) ((Copy.cell 4)^[entry] ⟨dst, src, m⟩)
    ((Copy.cell 1)^[nbytes &&& 3] c).m
  else ((Copy.cell 1)^[nbytes] ⟨dst, src, m⟩).m

/-- `d[len] = s[len]` from the end on. -/
def backwards (d s : ℕ) : ℕ → (ℕ → UInt8) → ℕ → UInt8
  | 0, m => m
  | len + 1, m => backwards d s len (Function.update m (d + len) (m (s + len)))

def memmove (dest src len : ℕ) (m : ℕ → UInt8) : ℕ → UInt8 :=
  if src < dest ∧ addW 64 src len > dest then backwards dest src len m else memcpy dest src len m

/-! ### Cells -/

theorem cells {w : ℕ} (c : Copy) : ∀ k : ℕ, c.d ≤ c.s ∨ c.s + k * w ≤ c.d →
    (Copy.cell w)^[k] c = ⟨c.d + k * w, c.s + k * w, Support.memmove c.d c.s (k * w) c.m⟩ := by
  intro k
  induction k with
  | zero =>
      intro _
      have hid : Support.memmove c.d c.s 0 c.m = c.m := funext fun x => memmove_outside (by omega)
      simp only [Function.iterate_zero, id, Nat.zero_mul, Nat.add_zero, hid]
  | succ k ih =>
      intro h
      have hk : c.d ≤ c.s ∨ c.s + k * w ≤ c.d := by
        rw [Nat.succ_mul] at h
        omega
      rw [Function.iterate_succ_apply', ih hk, Copy.cell,
        memmove_append (by rw [Nat.succ_mul] at h; omega), Nat.succ_mul,
        Nat.add_assoc, Nat.add_assoc]

theorem again_eq (n : ℕ) : ∀ c : Copy, again n c = (Copy.cell 4)^[16 * n] c := by
  induction n with
  | zero => exact fun _ => rfl
  | succ n ih =>
      intro c
      rw [again, ih, ← Function.iterate_add_apply, Nat.mul_succ]

/-- How many words the rounds copy, if the first is entered at the `entry`th from its end. -/
def words (k : ℕ) : ℕ := 16 * subW 32 ((k + 15) / 16 % 2 ^ 32) 1 + if k % 16 = 0 then 16 else k % 16

/-- The rounds copy each word once if they can be counted, and stop at least sixteen words early if
not. -/
theorem words_of_le {k : ℕ} (hk : 0 < k) (h : (k + 15) / 16 ≤ 2 ^ 32) : words k = k := by
  have hsub : subW 32 ((k + 15) / 16 % 2 ^ 32) 1 = (k + 15) / 16 - 1 := by
    by_cases heq : (k + 15) / 16 = 2 ^ 32
    · rw [heq]
      decide
    · rw [Nat.mod_eq_of_lt (by omega), subW_of_le (by omega) (by omega)]
  rw [words, hsub]
  split_ifs <;> omega

theorem words_of_lt {k : ℕ} (h : 2 ^ 32 < (k + 15) / 16) : words k + 16 ≤ k := by
  have hlt := subW_lt 32 ((k + 15) / 16 % 2 ^ 32) 1
  rw [words]
  split_ifs <;> omega

/-! ### memcpy -/

/-- Both addresses are aligned. -/
def Aligned (dst src : ℕ) : Prop := src % 4 = 0 ∧ dst % 4 = 0

theorem aligned_iff {dst src : ℕ} : src &&& 3 = 0 ∧ dst &&& 3 = 0 ↔ Aligned dst src := by
  rw [show 3 = 2 ^ 2 - 1 from rfl, Nat.and_two_pow_sub_one_eq_mod, Nat.and_two_pow_sub_one_eq_mod]
  rfl

/-- How many bytes `memcpy` copies. -/
def copied (dst src nbytes : ℕ) : ℕ :=
  if nbytes ≥ 4 ∧ src &&& 3 = 0 ∧ dst &&& 3 = 0 then 4 * words (nbytes / 4) + nbytes % 4 else nbytes

theorem memcpy_eq {dst src nbytes : ℕ} (hfwd : dst ≤ src ∨ src + nbytes ≤ dst) (m : ℕ → UInt8) :
    memcpy dst src nbytes m = Support.memmove dst src (copied dst src nbytes) m := by
  rw [memcpy, copied]
  by_cases h : nbytes ≥ 4 ∧ src &&& 3 = 0 ∧ dst &&& 3 = 0
  · have hr : nbytes &&& 3 = nbytes % 4 := Nat.and_two_pow_sub_one_eq_mod nbytes 2
    have hk : nbytes >>> 2 = nbytes / 4 := Nat.shiftRight_eq_div_pow nbytes 2
    have hall : ∀ n e c, again n ((Copy.cell 4)^[e] c) = (Copy.cell 4)^[16 * n + e] c := by
      intro n e c
      rw [again_eq, ← Function.iterate_add_apply]
    have hle : words (nbytes / 4) ≤ nbytes / 4 := by
      by_cases hcount : (nbytes / 4 + 15) / 16 ≤ 2 ^ 32
      · exact (words_of_le (by omega) hcount).le
      · have := words_of_lt (not_le.mp hcount)
        omega
    have hw : 16 * subW 32 ((nbytes / 4 + 15) / 16 % 2 ^ 32) 1 +
        (if nbytes / 4 % 16 = 0 then 16 else nbytes / 4 % 16) = words (nbytes / 4) := rfl
    rw [if_pos h, if_pos h]
    simp only [hk, hr, hall, hw]
    rw [cells (w := 4) _ _ (by dsimp only; omega), cells (w := 1) _ _ (by dsimp only; omega)]
    dsimp only
    rw [memmove_append (by omega), Nat.mul_one, Nat.mul_comm]
  · rw [if_neg h, if_neg h, cells (w := 1) _ _ (by dsimp only; omega)]
    dsimp only
    rw [Nat.mul_one]

theorem copied_cases (dst src nbytes : ℕ) :
    (copied dst src nbytes = nbytes ∧ ((nbytes / 4 + 15) / 16 ≤ 2 ^ 32 ∨ ¬ Aligned dst src)) ∨
      (copied dst src nbytes < nbytes ∧
      ¬ ((nbytes / 4 + 15) / 16 ≤ 2 ^ 32 ∨ ¬ Aligned dst src)) := by
  rw [copied]
  by_cases hcount : (nbytes / 4 + 15) / 16 ≤ 2 ^ 32
  · refine .inl ⟨?_, .inl hcount⟩
    split_ifs with h
    · rw [words_of_le (by omega) hcount]
      omega
    · rfl
  · have hearly := words_of_lt (not_le.mp hcount)
    by_cases hal : Aligned dst src
    · refine .inr ⟨?_, not_or.mpr ⟨hcount, not_not.mpr hal⟩⟩
      rw [if_pos ⟨by omega, aligned_iff.mpr hal⟩]
      omega
    · exact .inl ⟨if_neg fun h => hal (aligned_iff.mp h.2), .inr hal⟩

/-- A copy of less than all is not the copy, unless there is nothing to do. -/
theorem short_iff {dst src n nbytes : ℕ} (h : n < nbytes) :
    (∀ m : ℕ → UInt8, Support.memmove dst src n m = Support.memmove dst src nbytes m) ↔
    dst = src := by
  constructor
  · intro hall
    by_contra hne
    have hlast := congrFun (hall fun x => if x = dst + (nbytes - 1) then 1 else 0)
      (dst + (nbytes - 1))
    rw [memmove_outside (by omega), memmove_inside (by omega), if_pos rfl,
      if_neg (by omega)] at hlast
    exact absurd hlast (by decide)
  · rintro rfl m
    have hid : ∀ k, Support.memmove dst dst k m = m := by
      intro k
      funext x
      rw [Support.memmove]
      split_ifs with hx
      · rw [show dst + (x - dst) = x by omega]
      · rfl
    rw [hid, hid]

/-- **When `memcpy` copies**: always, but for aligned addresses and more rounds than an `unsigned`
counts. -/
theorem memcpy_iff {dst src nbytes : ℕ} (hfwd : dst ≤ src ∨ src + nbytes ≤ dst) :
    (∀ m, memcpy dst src nbytes m = Support.memmove dst src nbytes m) ↔
      dst = src ∨ (nbytes / 4 + 15) / 16 ≤ 2 ^ 32 ∨ ¬ Aligned dst src := by
  simp only [memcpy_eq hfwd]
  obtain ⟨heq, hall⟩ | ⟨hlt, hnot⟩ := copied_cases dst src nbytes
  · exact iff_of_true (fun m => by rw [heq]) (.inr hall)
  · rw [short_iff hlt]
    exact ⟨.inl, fun h => h.resolve_right hnot⟩

/-! ### memmove -/

theorem backwards_eq {d s : ℕ} (h : s ≤ d) : ∀ (len : ℕ) (m : ℕ → UInt8),
    backwards d s len m = Support.memmove d s len m := by
  intro len
  induction len with
  | zero => exact fun m => (funext fun x => memmove_outside (by omega)).symm
  | succ len ih =>
      intro m
      have hone : Function.update m (d + len) (m (s + len)) = Support.memmove (d + len) (s + len)
          1 m := by
        funext x
        rw [Function.update_apply, Support.memmove]
        split_ifs with h₁ h₂ h₂
        · rw [h₁, Nat.sub_self, Nat.add_zero]
        · omega
        · omega
        · rfl
      rw [backwards, ih, hone, memmove_prepend h]

/-- **When `memmove` copies**, whether the ranges overlap or not. -/
theorem memmove_iff {dest src len : ℕ} (hs : src + len < 2 ^ 64) :
    (∀ m, memmove dest src len m = Support.memmove dest src len m) ↔
      dest = src ∨ (src < dest ∧ dest < src + len) ∨ (len / 4 + 15) / 16 ≤ 2 ^ 32 ∨
      ¬ Aligned dest src := by
  simp only [memmove, addW_of_lt hs]
  by_cases hback : src < dest ∧ dest < src + len
  · refine iff_of_true (fun m => ?_) (.inr (.inl hback))
    rw [if_pos hback, backwards_eq hback.1.le]
  · simp only [gt_iff_lt, if_neg hback]
    rw [memcpy_iff (by omega)]
    simp only [hback, false_or]

theorem memmove_iff_overlap :
    memmove 0x1004 0x1000 64 (fun x => UInt8.ofNat x) = Support.memmove 0x1004 0x1000 64 fun x =>
      UInt8.ofNat x :=
  (memmove_iff (by decide)).mpr (.inr (.inl (by decide))) _

/-! ### copy_memory -/

theorem moved_eq {d s n : ℕ} (h : s + n ≤ 2 ^ 64) (f : ℕ → UInt8) :
    moved d s n f = Support.memmove d s n f := by
  funext x
  rw [moved, Support.memmove]
  by_cases hx : d ≤ x ∧ x < d + n
  · rw [if_pos hx, if_pos hx, addW_of_lt (by omega)]
  · rw [if_neg hx, if_neg hx]

/-- A round asks for less than 4 GiB, and that `memmove` can do. -/
theorem memmove_eq_moved {dst src n : ℕ} (hs : src + n < 2 ^ 64) (hn : n < 2 ^ 32) (m : ℕ → UInt8) :
    memmove dst src n m = moved dst src n m := by
  rw [moved_eq hs.le]
  exact (memmove_iff hs).mpr (.inr (.inr (.inl (by omega)))) m

theorem copyLoop_memmove {max : ℕ} (hmax : max < 2 ^ 32) :
    ∀ (rounds dst src len : ℕ) (m : ℕ → UInt8), dst + len ≤ 2 ^ 64 → src + len < 2 ^ 64 →
    copyLoop memmove max rounds dst src len m = copyLoop moved max rounds dst src len m := by
  intro rounds
  induction rounds with
  | zero => exact fun _ _ _ _ _ _ => rfl
  | succ rounds ih =>
      intro dst src len m hd hs
      have hle : (if max < len then max else len) ≤ len ∧
          (if max < len then max else len) < 2 ^ 32 := by
        split_ifs <;> omega
      simp only [copyLoop]
      generalize (if max < len then max else len) = amount at hle
      rw [memmove_eq_moved (by omega) hle.2]
      by_cases hdone : len - amount = 0
      · rw [if_pos hdone, if_pos hdone]
      · rw [if_neg hdone, if_neg hdone, addW_of_lt (by omega), addW_of_lt (by omega)]
        exact ih _ _ _ _ (by omega) (by omega)

/-- **`copy_memory` with this `memmove`**: it never asks for more than `memmove` can do.  Ranges
that are apart are copied, unless there is something to copy and its length is a multiple of 4
GiB. -/
theorem copy_memory_memmove {dst src len : ℕ} (hd : dst + len ≤ 2 ^ 64) (hs : src + len < 2 ^ 64)
    (hapart : dst + len ≤ src ∨ src + len ≤ dst) (m : ℕ → UInt8) :
    copy_memory memmove dst src len m =
      if len ≠ 0 ∧ len % 2 ^ 32 = 0 then none else some (Support.memmove dst src len m) := by
  have heq : copy_memory memmove dst src len m = copy_memory moved dst src len m :=
    copyLoop_memmove (Nat.mod_lt _ (Nat.two_pow_pos 32)) _ _ _ _ m hd hs
  rw [heq]
  by_cases hstuck : len ≠ 0 ∧ len % 2 ^ 32 = 0
  · rw [if_pos hstuck]
    exact copy_memory_none.mpr hstuck
  · rw [if_neg hstuck]
    obtain ⟨m', hm'⟩ : ∃ m', copy_memory moved dst src len m = some m' := by
      rw [← Option.ne_none_iff_exists']
      exact fun hnone => hstuck (copy_memory_none.mp hnone)
    have hmoves : Moves moved id := fun _ _ _ _ => rfl
    have hcopied : Copied dst src len m m' := copy_memory_copied hmoves hd hm'
    rw [hm']
    congr 1
    funext x
    by_cases hx : dst ≤ x ∧ x < dst + len
    · have hsrc : addW 64 src (x - dst) = src + (x - dst) := addW_of_lt (by omega)
      have hbyte := hcopied.bytes (x - dst) (by omega) (by omega)
      rw [Support.memmove, if_pos hx, ← hsrc, ← hbyte, Nat.add_sub_cancel' hx.1]
    · rw [Support.memmove, if_neg hx, hcopied.frame x hx]

theorem copy_memory_memmove_image :
    copy_memory memmove 0x80000 0x400000 0x1000 (fun x => UInt8.ofNat x) =
      some (Support.memmove 0x80000 0x400000 0x1000 fun x => UInt8.ofNat x) :=
  (copy_memory_memmove (by decide) (by decide) (.inl (by decide)) _).trans (if_neg (by decide))

end Startup.Memmove
