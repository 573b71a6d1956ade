import Mathlib.Algebra.GroupWithZero.Nat
import Mathlib.Algebra.Ring.Int.Defs
import Mathlib.Logic.Function.Basic
import Mathlib.Order.CompletePartialOrder
import Mathlib.Tactic.Common

/-!
# Support — fields of registers

Registers of 32 bits that are read and written by fields: so many bits of one register, from a bit
on.

* `putBits` — a field of a word is changed, as `x & ~(mask << lo) | v << lo`; a bit is set or
cleared;
* `BitField.read_write`, `BitField.read_write_apart` — what is read after a field was written;
* `Spares` — what a program does to every field apart from those it works on: nothing;
* `foldl_fill` — what a loop leaves that writes one value to some registers;
* `Sets` — things that consist of fields, of which no two share a bit: one of them is changed, and
no bit of any other.
-/

namespace Support

/-- The bits of a field of `w` bits, at the bottom. -/
def lowMask (w : ℕ) : BitVec 32 := BitVec.ofNat 32 (2 ^ w - 1)

theorem getLsbD_lowMask {w : ℕ} (hw : w ≤ 32) (i : ℕ) : (lowMask w).getLsbD i = decide (i < w) := by
  rw [lowMask, BitVec.getLsbD_ofNat, Nat.testBit_two_pow_sub_one]
  by_cases hi : i < w
  · simp [hi, show i < 32 by omega]
  · simp [hi]

/-- `x` with `v` in the `w` bits from `lo` on. -/
def putBits (lo w : ℕ) (v x : BitVec 32) : BitVec 32 :=
  (x &&& ~~~(lowMask w <<< lo)) ||| ((v &&& lowMask w) <<< lo)

theorem getLsbD_putBits {lo w : ℕ} (hfits : lo + w ≤ 32) (v x : BitVec 32) (i : ℕ) :
    (putBits lo w v x).getLsbD i = if lo ≤ i ∧ i < lo + w then v.getLsbD (i - lo)
      else x.getLsbD i := by
  have hmask := getLsbD_lowMask (w := w) (by omega)
  simp only [putBits, BitVec.getLsbD_or, BitVec.getLsbD_and, BitVec.getLsbD_not,
    BitVec.getLsbD_shiftLeft, hmask]
  by_cases hi : i < 32
  · by_cases h : lo ≤ i ∧ i < lo + w
    · simp [hi, h.1, show i - lo < w by omega, show ¬ i < lo by omega, h.2]
    · rw [if_neg h]
      by_cases hlo : i < lo
      · simp [hi, hlo]
      · simp [hi, hlo, show ¬ i - lo < w by omega]
  · have hx : x.getLsbD i = false := BitVec.getLsbD_of_ge _ _ (by omega)
    rw [if_neg (by omega), hx]
    simp [hi]

/-- The second of two writes stays. -/
theorem putBits_putBits {lo w : ℕ} (hfits : lo + w ≤ 32) (v u x : BitVec 32) :
    putBits lo w v (putBits lo w u x) = putBits lo w v x := by
  apply BitVec.eq_of_getLsbD_eq
  intro i _
  rw [getLsbD_putBits hfits, getLsbD_putBits hfits, getLsbD_putBits hfits]
  split_ifs <;> rfl

/-- Bits are put in a field without being cut down to it first, where they fit. -/
theorem or_shift_eq_putBits {w : ℕ} {v : BitVec 32} (h : v &&& lowMask w = v) (lo : ℕ)
    (x : BitVec 32) :
    (x &&& ~~~(lowMask w <<< lo)) ||| (v <<< lo) = putBits lo w v x := by
  rw [putBits, h]

/-- A bit is set. -/
theorem or_eq_putBits {lo : ℕ} (h : lo < 32) (x : BitVec 32) :
    x ||| (1#32 <<< lo) = putBits lo 1 1 x := by
  apply BitVec.eq_of_getLsbD_eq
  intro i hi
  rw [getLsbD_putBits (by omega), BitVec.getLsbD_or, ← BitVec.twoPow_eq, BitVec.getLsbD_twoPow]
  by_cases heq : lo = i
  · subst heq
    simp [h]
  · rw [if_neg (by omega)]
    simp [heq]

/-- A bit is cleared. -/
theorem and_not_eq_putBits {lo : ℕ} (h : lo < 32) (x : BitVec 32) :
    x &&& ~~~(1#32 <<< lo) = putBits lo 1 0 x := by
  apply BitVec.eq_of_getLsbD_eq
  intro i hi
  rw [getLsbD_putBits (by omega), BitVec.getLsbD_and, BitVec.getLsbD_not, ← BitVec.twoPow_eq,
    BitVec.getLsbD_twoPow]
  by_cases heq : lo = i
  · subst heq
    simp [h]
  · rw [if_neg (by omega)]
    simp [heq, hi]

/-- A bit is tested. -/
theorem and_bit_eq_zero {lo : ℕ} (h : lo < 32) (x : BitVec 32) :
    x &&& (1#32 <<< lo) = 0 ↔ x.getLsbD lo = false := by
  constructor
  · intro hzero
    have hbit := congrArg (BitVec.getLsbD · lo) hzero
    simpa [BitVec.getLsbD_and, BitVec.getLsbD_shiftLeft, h] using hbit
  · intro hbit
    rw [← BitVec.twoPow_eq, BitVec.and_twoPow, hbit]
    rfl

/-! ### Fields -/

/-- `width` bits of a register, from bit `lo` on. -/
structure BitField (ρ : Type*) where
  reg : ρ
  lo : ℕ
  width : ℕ
  fits : lo + width ≤ 32

namespace BitField

variable {ρ : Type*} [DecidableEq ρ]

/-- The bits of the field, at the bottom. -/
def read (f : BitField ρ) (m : ρ → BitVec 32) : BitVec 32 := (m f.reg >>> f.lo) &&& lowMask f.width

def write (f : BitField ρ) (v : BitVec 32) (m : ρ → BitVec 32) : ρ → BitVec 32 :=
  Function.update m f.reg (putBits f.lo f.width v (m f.reg))

/-- No bit is in both. -/
def Apart (f g : BitField ρ) : Prop := f.reg ≠ g.reg ∨ f.lo + f.width ≤ g.lo ∨ g.lo + g.width ≤ f.lo

omit [DecidableEq ρ] in
theorem Apart.symm {f g : BitField ρ} (h : Apart f g) : Apart g f := by
  obtain h | h | h := h
  · exact .inl h.symm
  · exact .inr (.inr h)
  · exact .inr (.inl h)

omit [DecidableEq ρ] in
theorem getLsbD_read (f : BitField ρ) (m : ρ → BitVec 32) (i : ℕ) :
    (f.read m).getLsbD i = (decide (i < f.width) && (m f.reg).getLsbD (f.lo + i)) := by
  have := f.fits
  rw [read, BitVec.getLsbD_and, BitVec.getLsbD_ushiftRight, getLsbD_lowMask (by omega),
    Bool.and_comm]

omit [DecidableEq ρ] in
/-- A field of one bit is tested in place. -/
theorem and_bit_eq_zero_iff {f : BitField ρ} (hf : f.width = 1) (m : ρ → BitVec 32) :
    m f.reg &&& (1#32 <<< f.lo) = 0 ↔ f.read m = 0 := by
  have := f.fits
  rw [and_bit_eq_zero (by omega)]
  constructor
  · intro hbit
    apply BitVec.eq_of_getLsbD_eq
    intro i _
    rw [getLsbD_read, hf]
    by_cases hi : i = 0
    · simp [hi, hbit]
    · simp [hi]
  · intro hzero
    have hbit : (f.read m).getLsbD 0 = false := by
      rw [hzero]
      rfl
    rwa [getLsbD_read, hf, Nat.add_zero, decide_eq_true Nat.one_pos, Bool.true_and] at hbit

/-- What was written is read. -/
theorem read_write (f : BitField ρ) (v : BitVec 32) (m : ρ → BitVec 32) :
    f.read (f.write v m) = v &&& lowMask f.width := by
  apply BitVec.eq_of_getLsbD_eq
  intro i _
  have := f.fits
  rw [getLsbD_read, write, Function.update_self, getLsbD_putBits f.fits, BitVec.getLsbD_and,
    getLsbD_lowMask (by omega)]
  by_cases hi : i < f.width
  · simp [hi]
  · simp [hi]

/-- A field that is apart is read as before. -/
theorem read_write_apart {f g : BitField ρ} (h : Apart f g) (v : BitVec 32) (m : ρ → BitVec 32) :
    g.read (f.write v m) = g.read m := by
  apply BitVec.eq_of_getLsbD_eq
  intro i _
  rw [getLsbD_read, getLsbD_read, write]
  by_cases hreg : g.reg = f.reg
  · rw [hreg, Function.update_self, getLsbD_putBits f.fits]
    by_cases hi : i < g.width
    · obtain h | h | h := h
      · exact absurd hreg.symm h
      · rw [if_neg (by omega)]
      · rw [if_neg (by omega)]
    · simp [hi]
  · rw [Function.update_of_ne hreg]

end BitField

/-! ### What is kept -/

section Spares

variable {ρ : Type*}

/-- Every field that is apart from all in `F` is as it was. -/
def Spares (F : BitField ρ → Prop) (m m' : ρ → BitVec 32) : Prop :=
  ∀ g : BitField ρ, (∀ f, F f → f.Apart g) → g.read m' = g.read m

variable {F G : BitField ρ → Prop} {m m' m'' : ρ → BitVec 32}

theorem Spares.refl (F : BitField ρ → Prop) (m : ρ → BitVec 32) : Spares F m m := fun _ _ => rfl

theorem Spares.trans (h : Spares F m m') (h' : Spares F m' m'') : Spares F m m'' := by
  intro g hg
  rw [h' g hg, h g hg]

theorem Spares.mono (h : Spares F m m') (hFG : ∀ f, F f → G f) : Spares G m m' :=
  fun g hg => h g fun f hf => hg f (hFG f hf)

theorem spares_write [DecidableEq ρ] {f : BitField ρ} (hf : F f) (v : BitVec 32)
    (m : ρ → BitVec 32) :
    Spares F m (f.write v m) := fun _ hg => BitField.read_write_apart (hg f hf) v m

end Spares

/-! ### Loops over registers -/

/-- A loop of which each round writes `c` to some registers leaves `c` in all of them. -/
theorem foldl_fill {ι ρ β : Type*} {body : ι → (ρ → β) → ρ → β} {S : ι → ρ → Prop}
    [∀ i, DecidablePred (S i)] {c : β}
    {l : List ι} (hbody : ∀ i ∈ l, ∀ m r, body i m r = if S i r then c else m r) (m : ρ → β)
    (r : ρ) :
    l.foldl (fun m i => body i m) m r = if ∃ i ∈ l, S i r then c else m r := by
  induction l generalizing m with
  | nil => simp
  | cons i l ih =>
      rw [List.foldl_cons, ih fun j hj =>
        hbody j (List.mem_cons_of_mem _ hj), hbody i List.mem_cons_self]
      by_cases hrest : ∃ i ∈ l, S i r
      · rw [if_pos hrest, if_pos (hrest.imp fun _ h => ⟨List.mem_cons_of_mem _ h.1, h.2⟩)]
      · rw [if_neg hrest]
        by_cases hi : S i r
        · rw [if_pos hi, if_pos ⟨i, List.mem_cons_self, hi⟩]
        · rw [if_neg hi, if_neg]
          rintro ⟨j, hj, hS⟩
          obtain rfl | hj := List.mem_cons.mp hj
          · exact hi hS
          · exact hrest ⟨j, hj, hS⟩

/-! ### Things that consist of fields -/

section Parts

variable {P K ρ : Type*}

/-- What the parts of a thing hold; a part that it does not have holds 0. -/
def parts (field : P → K → Option (BitField ρ)) (m : ρ → BitVec 32) (p : P) : K → BitVec 32 :=
  fun k => (field p k).elim 0 fun f => f.read m

/-- The fields of a thing. -/
def PartOf (field : P → K → Option (BitField ρ)) (p : P) (f : BitField ρ) : Prop :=
  ∃ k, field p k = some f

/-- No two parts share a bit, of one thing or of two. -/
def Distinct (field : P → K → Option (BitField ρ)) : Prop :=
  ∀ ⦃p p' k k' f f'⦄, field p k = some f → field p' k' = some f' → p ≠ p' ∨ k ≠ k' → f.Apart f'

/-- A thing is changed by `g`, and no bit but its own is. -/
structure Sets (field : P → K → Option (BitField ρ)) (p : P) (g : (K → BitVec 32) → K → BitVec 32)
    (m m' : ρ → BitVec 32) : Prop where
  here : parts field m' p = g (parts field m p)
  spares : Spares (PartOf field p) m m'

variable {field : P → K → Option (BitField ρ)} {p : P} {g g' : (K → BitVec 32) → K → BitVec 32}
  {m m' m'' : ρ → BitVec 32}

theorem Sets.same (p : P) (m : ρ → BitVec 32) : Sets field p id m m := ⟨rfl, .refl _ _⟩

theorem Sets.trans (h : Sets field p g m m') (h' : Sets field p g' m' m'') :
    Sets field p (g' ∘ g) m m'' :=
  ⟨h'.here.trans (congrArg g' h.here), h.spares.trans h'.spares⟩

theorem Sets.congr (h : Sets field p g m m') (hg : g (parts field m p) = g' (parts field m p)) :
    Sets field p g' m m' :=
  ⟨h.here.trans hg, h.spares⟩

/-- The others are as they were. -/
theorem Sets.other (hfield : Distinct field) (h : Sets field p g m m') {p' : P} (hne : p' ≠ p) :
    parts field m' p' = parts field m p' := by
  funext k
  simp only [parts]
  cases hk : field p' k with
  | none => rfl
  | some f =>
      refine h.spares f ?_
      rintro f' ⟨k', hk'⟩
      exact hfield hk' hk (.inl hne.symm)

variable [DecidableEq ρ] [DecidableEq K]

theorem sets_write (hfield : Distinct field) {k : K} {f : BitField ρ} (hk : field p k = some f)
    (v : BitVec 32) (m : ρ → BitVec 32) :
    Sets field p (fun x => Function.update x k (v &&& lowMask f.width)) m (f.write v m) where
  here := by
    funext k'
    by_cases heq : k' = k
    · subst heq
      rw [Function.update_self, parts, hk, Option.elim_some, BitField.read_write]
    · rw [Function.update_of_ne heq, parts, parts]
      cases hk' : field p k' with
      | none => rfl
      | some f' => exact BitField.read_write_apart (hfield hk hk' (.inr (Ne.symm heq))) v m
  spares := spares_write ⟨k, hk⟩ v m

theorem sets_zero (hfield : Distinct field) {k : K} {f : BitField ρ} (hk : field p k = some f)
    (m : ρ → BitVec 32) :
    Sets field p (fun x => Function.update x k 0) m (f.write 0 m) :=
  (sets_write hfield hk 0 m).congr
    (by rw [show (0 : BitVec 32) &&& lowMask f.width = 0 from BitVec.zero_and])

theorem sets_one (hfield : Distinct field) {k : K} {f : BitField ρ} (hk : field p k = some f)
    (hf : f.width = 1)
    (m : ρ → BitVec 32) : Sets field p (fun x => Function.update x k 1) m (f.write 1 m) :=
  (sets_write hfield hk 1 m).congr (by rw [hf]; rfl)

end Parts

end Support
