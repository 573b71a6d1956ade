import RpiBsp.Support.Memory

/-!
# Support — C strings

Strings that end with a zero byte, in a memory of bytes.  `strlen`, `streq` (`strcmp` used as a
test) and `strlcpy` are the C library's; what they read and write is said with `Holds`.
-/

namespace Support

/-- The characters of a string, without the zero that ends it. -/
structure CString where
  chars : List UInt8
  nul_free : 0 ∉ chars
deriving DecidableEq

namespace CString

def length (c : CString) : ℕ := c.chars.length

/-- The bytes of a string. -/
def bytes (c : CString) : List UInt8 := c.chars ++ [0]

@[simp] theorem length_bytes (c : CString) : c.bytes.length = c.length + 1 := by
  rw [bytes, List.length_append]
  rfl

theorem ext_chars {c d : CString} (h : c.chars = d.chars) : c = d := by
  cases c
  cases d
  congr

end CString

/-- `strlen`, which looks at `fuel` bytes at most. -/
def strlen (f : ℕ → UInt8) : ℕ → ℕ → ℕ
  | 0, _ => 0
  | fuel + 1, a => if f a = 0 then 0 else strlen f fuel (a + 1) + 1

/-- `strcmp(name, &f[a]) == 0`. -/
def streq (f : ℕ → UInt8) : List UInt8 → ℕ → Bool
  | [], a => f a = 0
  | c :: cs, a => f a = c && streq f cs (a + 1)

/-- `strlcpy(dst, src, size)`. -/
def strlcpy (dst : ℕ) (src : List UInt8) (size : ℕ) (f : ℕ → UInt8) : ℕ → UInt8 :=
  if size = 0 then f else write dst (src.take (size - 1) ++ [0]) f

theorem strlen_of_holds {f : ℕ → UInt8} {l : List UInt8} (hl : 0 ∉ l) :
    ∀ {a fuel : ℕ}, Holds f a (l ++ [0]) → l.length < fuel → strlen f fuel a = l.length := by
  induction l with
  | nil =>
      intro a fuel h hf
      obtain ⟨fuel, rfl⟩ := Nat.exists_eq_succ_of_ne_zero (by omega : fuel ≠ 0)
      rw [strlen, if_pos (holds_cons.mp h).1]
      rfl
  | cons c cs ih =>
      intro a fuel h hf
      obtain ⟨fuel, rfl⟩ := Nat.exists_eq_succ_of_ne_zero (by omega : fuel ≠ 0)
      obtain ⟨hc, hcs⟩ := holds_cons.mp h
      rw [List.mem_cons, not_or] at hl
      rw [List.length_cons] at hf ⊢
      rw [strlen, if_neg (by rw [hc]; exact fun h0 => hl.1 h0.symm), ih hl.2 hcs (by omega)]

theorem streq_iff {f : ℕ → UInt8} {l : List UInt8} :
    ∀ {a : ℕ}, streq f l a = true ↔ Holds f a (l ++ [0]) := by
  induction l with
  | nil =>
      intro a
      rw [streq, decide_eq_true_iff, List.nil_append, holds_cons]
      exact ⟨fun h => ⟨h, .nil _ _⟩, fun h => h.1⟩
  | cons c cs ih =>
      intro a
      rw [streq, Bool.and_eq_true, decide_eq_true_iff, List.cons_append, holds_cons, ih]

/-- Two strings at one place are one. -/
theorem eq_of_holds {f : ℕ → UInt8} {l m : List UInt8} (hl : 0 ∉ l) (hm : 0 ∉ m) {a : ℕ}
    (h : Holds f a (l ++ [0])) (h' : Holds f a (m ++ [0])) : l = m := by
  induction l generalizing m a with
  | nil =>
      cases m with
      | nil => rfl
      | cons d ds =>
          have h0 : d = 0 := (holds_cons.mp h').1.symm.trans (holds_cons.mp h).1
          exact absurd (List.mem_cons.mpr (.inl h0.symm)) hm
  | cons c cs ih =>
      cases m with
      | nil =>
          have h0 : c = 0 := (holds_cons.mp h).1.symm.trans (holds_cons.mp h').1
          exact absurd (List.mem_cons.mpr (.inl h0.symm)) hl
      | cons d ds =>
          obtain ⟨hc, hcs⟩ := holds_cons.mp h
          obtain ⟨hd, hds⟩ := holds_cons.mp h'
          rw [List.mem_cons, not_or] at hl hm
          rw [hc.symm.trans hd, ih hl.2 hm.2 hcs hds]

/-- With room for the whole string it is copied as it is. -/
theorem strlcpy_of_lt {dst size : ℕ} {src : List UInt8} (h : src.length < size) (f : ℕ → UInt8) :
    strlcpy dst src size f = write dst (src ++ [0]) f := by
  rw [strlcpy, if_neg (by omega), List.take_of_length_le (by omega)]

end Support
