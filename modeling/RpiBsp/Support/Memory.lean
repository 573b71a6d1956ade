import Mathlib.Algebra.GroupWithZero.Nat
import Mathlib.Algebra.Ring.Int.Defs
import Mathlib.Logic.Function.Basic
import Mathlib.Order.CompletePartialOrder
import Mathlib.Tactic.Common

/-!
# Support — memory

A memory of cells `α` is a function from addresses.  `memmove` and `memset` are the C library's,
counted in cells.  `Holds f i l` says that the cells from `i` on are the list `l`; the lemmas say
how moving, setting and updating cells change which lists a memory holds, so that code that edits
a packed table can be followed on lists.  `load` and `store` read and write numbers in bytes, and
`leBytes` is the list of them; `ofBytes` and `beBytes` are for numbers with the highest byte first.
-/

namespace Support

variable {α : Type*}

/-- Copy `n` cells from `src` to `dst`, as if through a buffer: the two may overlap. -/
def memmove (dst src n : ℕ) (f : ℕ → α) : ℕ → α :=
  fun j => if dst ≤ j ∧ j < dst + n then f (src + (j - dst)) else f j

/-- Set `n` cells from `dst` on to `v`. -/
def memset (dst n : ℕ) (v : α) (f : ℕ → α) : ℕ → α :=
  fun j => if dst ≤ j ∧ j < dst + n then v else f j

theorem memmove_inside {dst src n k : ℕ} {f : ℕ → α} (h : k < n) :
    memmove dst src n f (dst + k) = f (src + k) := by
  rw [memmove, if_pos (by omega), Nat.add_sub_cancel_left]

theorem memmove_outside {dst src n j : ℕ} {f : ℕ → α} (h : j < dst ∨ dst + n ≤ j) :
    memmove dst src n f j = f j := by
  rw [memmove, if_neg (by omega)]

/-- Copying a part and then what follows it, if neither is written before it is read. -/
theorem memmove_append {dst src n k : ℕ} (h : dst ≤ src ∨ src + n + k ≤ dst) (f : ℕ → α) :
    memmove (dst + n) (src + n) k (memmove dst src n f) = memmove dst src (n + k) f := by
  funext x
  simp only [memmove]
  split_ifs <;> first | omega | rfl | (congr 1; omega)

/-- Copying a part and then what is before it. -/
theorem memmove_prepend {dst src n k : ℕ} (h : src ≤ dst) (f : ℕ → α) :
    memmove dst src n (memmove (dst + n) (src + n) k f) = memmove dst src (n + k) f := by
  funext x
  simp only [memmove]
  split_ifs <;> first | omega | rfl | (congr 1; omega)

theorem memset_inside {dst n j : ℕ} {v : α} {f : ℕ → α} (h : dst ≤ j ∧ j < dst + n) :
    memset dst n v f j = v := by
  rw [memset, if_pos h]

theorem memset_outside {dst n j : ℕ} {v : α} {f : ℕ → α} (h : j < dst ∨ dst + n ≤ j) :
    memset dst n v f j = f j := by
  rw [memset, if_neg (by omega)]

/-- The cells of `f` from `i` on are `l`. -/
def Holds (f : ℕ → α) (i : ℕ) (l : List α) : Prop := ∀ j (h : j < l.length), f (i + j) = l[j]

theorem Holds.nil (f : ℕ → α) (i : ℕ) : Holds f i [] := fun _ h => absurd h (by simp)

theorem holds_append {f : ℕ → α} {i : ℕ} {l m : List α} :
    Holds f i (l ++ m) ↔ Holds f i l ∧ Holds f (i + l.length) m := by
  constructor
  · intro h
    refine ⟨fun j hj => ?_, fun j hj => ?_⟩
    · rw [h j (by simp; omega), List.getElem_append_left hj]
    · rw [Nat.add_assoc, h (l.length + j) (by simp; omega),
        List.getElem_append_right (by omega)]
      simp
  · rintro ⟨hl, hm⟩ j hj
    rw [List.length_append] at hj
    by_cases h : j < l.length
    · rw [List.getElem_append_left h, hl j h]
    · rw [List.getElem_append_right (by omega), ← hm (j - l.length) (by omega)]
      congr 1; omega

theorem holds_cons {f : ℕ → α} {i : ℕ} {x : α} {l : List α} :
    Holds f i (x :: l) ↔ f i = x ∧ Holds f (i + 1) l := by
  rw [← List.singleton_append, holds_append]
  refine and_congr_left' ⟨fun h => h 0 (by simp), fun h j hj => ?_⟩
  obtain rfl : j = 0 := by simpa using hj
  exact h

/-- A memory that agrees with `f` on the cells of `l` holds it too. -/
theorem Holds.congr {f g : ℕ → α} {i : ℕ} {l : List α} (h : Holds f i l)
    (hfg : ∀ j, i ≤ j → j < i + l.length → g j = f j) : Holds g i l :=
  fun j hj => (hfg (i + j) (by omega) (by omega)).trans (h j hj)

theorem Holds.memmove_apart {f : ℕ → α} {i dst src n : ℕ} {l : List α} (h : Holds f i l)
    (ha : i + l.length ≤ dst ∨ dst + n ≤ i) : Holds (memmove dst src n f) i l :=
  h.congr fun _ _ _ => memmove_outside (by omega)

theorem Holds.memmove {f : ℕ → α} {dst src n : ℕ} {l : List α} (h : Holds f src l)
    (hn : n = l.length) : Holds (memmove dst src n f) dst l :=
  fun j hj => (memmove_inside (by omega)).trans (h j hj)

theorem Holds.memset_apart {f : ℕ → α} {i dst n : ℕ} {v : α} {l : List α} (h : Holds f i l)
    (ha : i + l.length ≤ dst ∨ dst + n ≤ i) : Holds (memset dst n v f) i l :=
  h.congr fun _ _ _ => memset_outside (by omega)

theorem Holds.update_apart {f : ℕ → α} {i k : ℕ} {v : α} {l : List α} (h : Holds f i l)
    (ha : i + l.length ≤ k ∨ k < i) : Holds (Function.update f k v) i l :=
  h.congr fun j _ _ => Function.update_of_ne (by omega) _ _

/-- Opening a gap of one cell and filling it inserts into the list. -/
theorem Holds.insert {f : ℕ → α} {i r n : ℕ} {v : α} {l m : List α} (h : Holds f i (l ++ m))
    (hr : r = i + l.length) (hn : n = m.length) :
    Holds (Function.update (Support.memmove (r + 1) r n f) r v) i (l ++ v :: m) := by
  subst hr
  obtain ⟨hl, hm⟩ := holds_append.mp h
  refine holds_append.mpr ⟨?_, holds_cons.mpr ⟨Function.update_self .., ?_⟩⟩
  · exact (hl.memmove_apart (.inl (by omega))).update_apart (.inl (Nat.le_refl _))
  · exact (hm.memmove hn).update_apart (.inr (by omega))

/-- Closing the gap of one cell deletes from the list. -/
theorem Holds.erase {f : ℕ → α} {i r n : ℕ} {v : α} {l m : List α} (h : Holds f i (l ++ v :: m))
    (hr : r = i + l.length) (hn : n = m.length) :
    Holds (Support.memmove r (r + 1) n f) i (l ++ m) := by
  subst hr
  obtain ⟨hl, hm⟩ := holds_append.mp h
  exact holds_append.mpr ⟨hl.memmove_apart (.inl (Nat.le_refl _)), (holds_cons.mp hm).2.memmove hn⟩

/-- Updating a cell replaces its element. -/
theorem Holds.replace {f : ℕ → α} {i r : ℕ} {v w : α} {l m : List α}
    (h : Holds f i (l ++ v :: m)) (hr : r = i + l.length) :
    Holds (Function.update f r w) i (l ++ w :: m) := by
  subst hr
  obtain ⟨hl, hm⟩ := holds_append.mp h
  exact holds_append.mpr ⟨hl.update_apart (.inl (Nat.le_refl _)), holds_cons.mpr
    ⟨Function.update_self .., (holds_cons.mp hm).2.update_apart (.inr (by omega))⟩⟩

/-- The cell that stands at an element's place. -/
theorem Holds.cell {f : ℕ → α} {i r : ℕ} {v : α} {l m : List α} (h : Holds f i (l ++ v :: m))
    (hr : r = i + l.length) : f r = v := by
  subst hr; exact (holds_cons.mp (holds_append.mp h).2).1

/-! ### Lists that are written -/

/-- Put `l` into the cells from `a` on. -/
def write (a : ℕ) (l : List α) (f : ℕ → α) : ℕ → α :=
  fun j => if h : a ≤ j ∧ j - a < l.length then l[j - a] else f j

theorem write_outside {a j : ℕ} {l : List α} {f : ℕ → α} (h : j < a ∨ a + l.length ≤ j) :
    write a l f j = f j := by
  rw [write, dif_neg (by omega)]

theorem holds_write (a : ℕ) (l : List α) (f : ℕ → α) : Holds (write a l f) a l := by
  intro j hj
  rw [write, dif_pos (by omega)]
  simp

theorem eq_write_of_holds {a : ℕ} {l : List α} {f g : ℕ → α} (h : Holds g a l)
    (hout : ∀ j, j < a ∨ a + l.length ≤ j → g j = f j) : g = write a l f := by
  funext j
  by_cases hj : a ≤ j ∧ j - a < l.length
  · rw [write, dif_pos hj, ← h (j - a) hj.2, Nat.add_sub_cancel' hj.1]
  · rw [write, dif_neg hj, hout j (by omega)]

theorem write_nil (a : ℕ) (f : ℕ → α) : write a [] f = f := by
  funext j
  exact write_outside (by rw [List.length_nil]; omega)

/-- One more cell behind a list. -/
theorem update_write (a : ℕ) (l : List α) (x : α) (f : ℕ → α) :
    Function.update (write a l f) (a + l.length) x = write a (l ++ [x]) f := by
  refine eq_write_of_holds (holds_append.mpr ⟨?_, ?_⟩) fun j hj => ?_
  · exact (holds_write a l f).update_apart (.inl (Nat.le_refl _))
  · exact holds_cons.mpr ⟨Function.update_self .., .nil _ _⟩
  · rw [List.length_append, List.length_singleton] at hj
    rw [Function.update_of_ne (by omega), write_outside (by omega)]

theorem Holds.write_apart {f : ℕ → α} {i a : ℕ} {l m : List α} (h : Holds f i l)
    (ha : i + l.length ≤ a ∨ a + m.length ≤ i) : Holds (write a m f) i l :=
  h.congr fun _ _ _ => write_outside (by omega)

/-- A list of the same length replaces a part of the one that is held. -/
theorem Holds.write {f : ℕ → α} {i r : ℕ} {l m m' n : List α} (h : Holds f i (l ++ m ++ n))
    (hr : r = i + l.length) (hm : m.length = m'.length) :
    Holds (Support.write r m' f) i (l ++ m' ++ n) := by
  subst hr
  obtain ⟨hlm, hn⟩ := holds_append.mp h
  rw [List.length_append] at hn
  refine holds_append.mpr ⟨holds_append.mpr ⟨?_, holds_write _ _ _⟩, ?_⟩
  · exact (holds_append.mp hlm).1.write_apart (.inl (Nat.le_refl _))
  · rw [List.length_append, ← hm]
    exact hn.write_apart (.inr (by omega))

/-! ### Parts of a memory as lists -/

/-- The `n` cells from `i` on. -/
def bytes (f : ℕ → α) (i n : ℕ) : List α := (List.range n).map fun k => f (i + k)

@[simp] theorem length_bytes (f : ℕ → α) (i n : ℕ) : (bytes f i n).length = n := by
  simp [bytes]

@[simp] theorem bytes_zero (f : ℕ → α) (i : ℕ) : bytes f i 0 = [] := rfl

theorem bytes_add (f : ℕ → α) (i m n : ℕ) :
    bytes f i (m + n) = bytes f i m ++ bytes f (i + m) n := by
  simp [bytes, List.range_add, Nat.add_assoc]

theorem holds_of_bytes {f : ℕ → α} {i n : ℕ} {l : List α} (h : bytes f i n = l) : Holds f i l := by
  subst h
  intro j hj
  simp [bytes]

/-- A list behind what is there. -/
theorem bytes_write (f : ℕ → α) (n : ℕ) (l : List α) :
    bytes (write n l f) 0 (n + l.length) = bytes f 0 n ++ l := by
  refine List.ext_getElem (by simp) fun k h₁ h₂ => ?_
  simp only [bytes, List.getElem_map, List.getElem_range, Nat.zero_add]
  by_cases hk : k < n
  · rw [List.getElem_append_left (by simpa using hk), write_outside (.inl hk)]
    simp
  · have hin : k - n < l.length := by
      rw [length_bytes] at h₁
      omega
    have hw := holds_write n l f (k - n) hin
    rw [List.getElem_append_right (by simpa using Nat.not_lt.mp hk)]
    simp only [List.length_map, List.length_range]
    rw [← hw]
    congr 1
    omega

/-- The rest of a memory, moved to its start. -/
theorem bytes_memmove (f : ℕ → α) (i n : ℕ) :
    bytes (memmove 0 i n f) 0 n = (bytes f 0 (i + n)).drop i := by
  refine List.ext_getElem (by simp) fun k h₁ h₂ => ?_
  have hk : k < n := by simpa using h₁
  have hin : memmove 0 i n f (0 + k) = f (i + k) := memmove_inside hk
  simp only [bytes, List.getElem_map, List.getElem_range, List.getElem_drop, Nat.zero_add]
  simpa using hin

/-! ### Numbers in bytes -/

/-- The little-endian number in the `w` bytes at `a`. -/
def load : ℕ → ℕ → (ℕ → UInt8) → ℕ
  | 0, _, _ => 0
  | w + 1, a, f => (f a).toNat + 256 * load w (a + 1) f

/-- Put `v` into the `w` bytes at `a`. -/
def store (w a v : ℕ) (f : ℕ → UInt8) : ℕ → UInt8 :=
  fun j => if a ≤ j ∧ j < a + w then UInt8.ofNat (v / 256 ^ (j - a)) else f j

theorem store_outside {w a v j : ℕ} {f : ℕ → UInt8} (h : j < a ∨ a + w ≤ j) :
    store w a v f j = f j := by
  rw [store, if_neg (by omega)]

/-- What is loaded depends on the bytes loaded. -/
theorem load_eq {w a b : ℕ} {f g : ℕ → UInt8} (h : ∀ j < w, f (a + j) = g (b + j)) :
    load w a f = load w b g := by
  induction w generalizing a b with
  | zero => rfl
  | succ w ih =>
      rw [load, load, show f a = g b from h 0 (by omega), ih]
      intro j hj
      have := h (j + 1) (by omega)
      rwa [← Nat.add_assoc, ← Nat.add_assoc, Nat.add_right_comm, Nat.add_right_comm b] at this

/-- A load does not see a store to other bytes. -/
theorem load_store_apart {w w' a b v : ℕ} {f : ℕ → UInt8} (h : a + w ≤ b ∨ b + w' ≤ a) :
    load w a (store w' b v f) = load w a f :=
  load_eq fun j hj => store_outside (by omega)

theorem load_lt (w a : ℕ) (f : ℕ → UInt8) : load w a f < 256 ^ w := by
  induction w generalizing a with
  | zero => exact Nat.one_pos
  | succ w ih =>
      have h₁ := ih (a + 1)
      have h₂ := (f a).toNat_lt
      rw [load, Nat.pow_succ]
      omega

/-- A byte of a number that was loaded. -/
theorem byte_load {w a j : ℕ} {f : ℕ → UInt8} (h : j < w) :
    UInt8.ofNat (load w a f / 256 ^ j) = f (a + j) := by
  induction w generalizing a j with
  | zero => omega
  | succ w ih =>
      have hlow := (f a).toNat_lt
      cases j with
      | zero =>
          apply UInt8.toNat_inj.mp
          rw [load, Nat.pow_zero, Nat.div_one, UInt8.toNat_ofNat', Nat.add_mul_mod_self_left,
            Nat.mod_eq_of_lt hlow, Nat.add_zero]
      | succ j =>
          have hhigh : ((f a).toNat + 256 * load w (a + 1) f) / 256 ^ (j + 1) = load w (a + 1) f /
              256 ^ j := by
            rw [Nat.pow_succ', ← Nat.div_div_eq_div_mul]
            congr 1
            omega
          rw [load, hhigh, ih (by omega)]
          congr 1
          omega

theorem load_store (w a v : ℕ) (f : ℕ → UInt8) : load w a (store w a v f) = v % 256 ^ w := by
  induction w generalizing a v with
  | zero => rw [load, Nat.pow_zero, Nat.mod_one]
  | succ w ih =>
      have hlow : store (w + 1) a v f a = UInt8.ofNat v := by
        rw [store, if_pos (by omega), Nat.sub_self, Nat.pow_zero, Nat.div_one]
      have hhigh : load w (a + 1) (store (w + 1) a v f) =
          load w (a + 1) (store w (a + 1) (v / 256) f) := by
        refine load_eq fun j hj => ?_
        rw [store, store, if_pos (by omega), if_pos (by omega), Nat.div_div_eq_div_mul,
          ← Nat.pow_succ', show a + 1 + j - a = a + 1 + j - (a + 1) + 1 by omega]
      have hv : v % 256 ^ (w + 1) = v % 256 + 256 * (v / 256 % 256 ^ w) := by
        rw [Nat.pow_succ', Nat.mod_mul]
      rw [load, hlow, hhigh, ih, UInt8.toNat_ofNat', hv]

/-- The `w` bytes of `v`, the lowest first. -/
def leBytes : ℕ → ℕ → List UInt8
  | 0, _ => []
  | w + 1, v => UInt8.ofNat v :: leBytes w (v / 256)

@[simp] theorem length_leBytes (w v : ℕ) : (leBytes w v).length = w := by
  induction w generalizing v with
  | zero => rfl
  | succ w ih => rw [leBytes, List.length_cons, ih]

theorem getElem_leBytes {w v j : ℕ} (h : j < (leBytes w v).length) :
    (leBytes w v)[j] = UInt8.ofNat (v / 256 ^ j) := by
  induction w generalizing v j with
  | zero => exact absurd h (by simp [leBytes])
  | succ w ih =>
      cases j with
      | zero => simp [leBytes]
      | succ j =>
          simp only [leBytes, List.getElem_cons_succ]
          rw [ih, Nat.div_div_eq_div_mul, ← Nat.pow_succ']

theorem store_eq_write (w a v : ℕ) (f : ℕ → UInt8) : store w a v f = write a (leBytes w v) f := by
  funext j
  rw [store, write]
  by_cases h : a ≤ j ∧ j < a + w
  · rw [if_pos h, dif_pos (by rw [length_leBytes]; omega), getElem_leBytes]
  · rw [if_neg h, dif_neg (by rw [length_leBytes]; omega)]

/-- A number is read from its bytes. -/
theorem load_of_holds {w a v : ℕ} {f : ℕ → UInt8} (h : Holds f a (leBytes w v)) :
    load w a f = v % 256 ^ w := by
  rw [← load_store w a v f]
  refine load_eq fun j hj => ?_
  have hj' : j < (leBytes w v).length := by rw [length_leBytes]; exact hj
  rw [h j hj', store_eq_write, holds_write a (leBytes w v) f j hj']

theorem leBytes_zero (w : ℕ) : leBytes w 0 = List.replicate w 0 := by
  induction w with
  | zero => rfl
  | succ w ih => rw [leBytes, Nat.zero_div, ih, List.replicate_succ]; rfl

theorem load_of_zeros {w a : ℕ} {f : ℕ → UInt8} (h : Holds f a (List.replicate w 0)) :
    load w a f = 0 := by
  rw [← leBytes_zero] at h
  rw [load_of_holds h, Nat.zero_mod]

/-! ### The highest byte first -/

def ofBytes (l : List UInt8) : ℕ := l.foldl (fun n b => 256 * n + b.toNat) 0

theorem ofBytes_concat (l : List UInt8) (b : UInt8) :
    ofBytes (l ++ [b]) = 256 * ofBytes l + b.toNat := by
  simp [ofBytes]

/-- The `w` bytes of `v`, the highest first. -/
def beBytes : ℕ → ℕ → List UInt8
  | 0, _ => []
  | w + 1, v => beBytes w (v / 256) ++ [UInt8.ofNat v]

@[simp] theorem length_beBytes (w v : ℕ) : (beBytes w v).length = w := by
  induction w generalizing v with
  | zero => rfl
  | succ w ih => rw [beBytes, List.length_append, ih, List.length_singleton]

theorem ofBytes_beBytes (w v : ℕ) : ofBytes (beBytes w v) = v % 256 ^ w := by
  induction w generalizing v with
  | zero => simp [beBytes, ofBytes, Nat.mod_one]
  | succ w ih =>
      have hv : v % 256 ^ (w + 1) = v % 256 + 256 * (v / 256 % 256 ^ w) := by
        rw [Nat.pow_succ', Nat.mod_mul]
      rw [beBytes, ofBytes_concat, ih, UInt8.toNat_ofNat', hv, Nat.add_comm]

end Support
