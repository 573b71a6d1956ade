import RpiBsp.Support.Text

/-!
# Support — Numbers in any base

`strtoul` and `strtol` of the C library, for `long` of 64 bits and bases up to 16, with the rest of
the text that they leave and whether the number was out of range.
-/

namespace Support

def digitVal (c : Char) : ℕ :=
  if '0' ≤ c ∧ c ≤ '9' then c.toNat - '0'.toNat
  else if 'a' ≤ c ∧ c ≤ 'f' then c.toNat - 'a'.toNat + 10
  else if 'A' ≤ c ∧ c ≤ 'F' then c.toNat - 'A'.toNat + 10
  else 16

/-- The base that a number is in, and its digits: `0x` counts only in front of a digit. -/
def radix (base : ℕ) (s : Text) : ℕ × Text :=
  match s with
  | '0' :: x :: d :: rest =>
    if (base = 0 ∨ base = 16) ∧ (x = 'x' ∨ x = 'X') ∧ digitVal d < 16 then (16, d :: rest)
    else (if base = 0 then 8 else base, s)
  | '0' :: _ => (if base = 0 then 8 else base, s)
  | _ => (if base = 0 then 10 else base, s)

/-- What the `strto` functions see: whether there is a minus, the number, and the rest; `none` if
there are no digits. -/
def scan (base : ℕ) (s : Text) : Option (Bool × ℕ × Text) :=
  let (neg, t) := sign (s.dropWhile isSpace)
  let (b, u) := radix base t
  let digits := u.takeWhile fun c => digitVal c < b
  if digits = [] then none
  else some (neg, digits.foldl (fun n c => n * b + digitVal c) 0, u.dropWhile fun c =>
    digitVal c < b)

/-- A value, the rest of the text, and whether it was out of range. -/
structure Parsed where
  val : ℕ
  rest : Text
  erange : Bool
deriving DecidableEq, Repr

/-- `strtoul` and `strtoull`, of 64 bits. -/
def strtoul (base : ℕ) (s : Text) : Parsed :=
  match scan base s with
  | none => ⟨0, s, false⟩
  | some (neg, n, rest) =>
    if n ≥ 2 ^ 64 then ⟨2 ^ 64 - 1, rest, true⟩
    else ⟨if neg then (2 ^ 64 - n) % 2 ^ 64 else n, rest, false⟩

/-- `strtol`, of 64 bits; a negative value as the word that holds it. -/
def strtol64 (base : ℕ) (s : Text) : Parsed :=
  match scan base s with
  | none => ⟨0, s, false⟩
  | some (neg, n, rest) =>
    if neg then if n > 2 ^ 63 then ⟨2 ^ 63, rest, true⟩ else ⟨(2 ^ 64 - n) % 2 ^ 64, rest, false⟩
    else if n ≥ 2 ^ 63 then ⟨2 ^ 63 - 1, rest, true⟩ else ⟨n, rest, false⟩

/-! ### What is left -/

theorem mem_of_mem_sign {s : Text} {c : Char} (h : c ∈ (sign s).2) : c ∈ s := by
  unfold sign at h
  split at h
  · exact List.mem_cons_of_mem _ h
  · exact List.mem_cons_of_mem _ h
  · exact h

theorem mem_of_mem_radix {base : ℕ} {s : Text} {c : Char} (h : c ∈ (radix base s).2) : c ∈ s := by
  unfold radix at h
  split at h
  · split at h
    · exact List.mem_cons_of_mem _ (List.mem_cons_of_mem _ h)
    · exact h
  · exact h
  · exact h

theorem mem_of_mem_rest {base : ℕ} {s : Text} {c : Char} (h : c ∈ (strtoul base s).rest) :
    c ∈ s := by
  unfold strtoul at h
  cases hscan : scan base s with
  | none =>
      rw [hscan] at h
      exact h
  | some r =>
      have hrest : r.2.2 = (radix base (sign (s.dropWhile isSpace)).2).2.dropWhile fun c =>
          digitVal c < (radix base (sign (s.dropWhile isSpace)).2).1 := by
        unfold scan at hscan
        dsimp only at hscan
        split at hscan
        case isTrue => exact absurd hscan (by simp)
        case isFalse => rw [← Option.some.inj hscan]
      have hmem : c ∈ r.2.2 := by
        rw [hscan] at h
        dsimp only at h
        split at h <;> exact h
      rw [hrest] at hmem
      exact (List.dropWhile_suffix _).subset
        (mem_of_mem_sign (mem_of_mem_radix ((List.dropWhile_suffix _).subset hmem)))

/-! ### Base ten -/

theorem digitVal_lt_ten (c : Char) : decide (digitVal c < 10) = c.isDigit := by
  have hrange : c.isDigit = decide ('0' ≤ c ∧ c ≤ '9') := by
    simp [Char.isDigit, Char.le_def]
  rw [hrange, decide_eq_decide]
  unfold digitVal
  constructor
  · intro h
    by_contra hno
    rw [if_neg hno] at h
    split_ifs at h <;> omega
  · intro h
    have hle : c.toNat ≤ '9'.toNat := h.2
    have hge : '0'.toNat ≤ c.toNat := h.1
    rw [if_pos h]
    have h0 : '0'.toNat = 48 := rfl
    have h9 : '9'.toNat = 57 := rfl
    omega

theorem digitVal_of_isDigit {c : Char} (h : c.isDigit) : digitVal c = c.toNat - '0'.toNat := by
  have hrange : '0' ≤ c ∧ c ≤ '9' := by
    simpa [Char.isDigit, Char.le_def] using h
  rw [digitVal, if_pos hrange]

theorem foldl_digits {digits : Text} (h : ∀ c ∈ digits, c.isDigit) (n : ℕ) :
    digits.foldl (fun n c => n * 10 + digitVal c) n = Nat.ofDigitChars 10 digits n := by
  induction digits generalizing n with
  | nil => rfl
  | cons c digits ih =>
      rw [List.forall_mem_cons] at h
      rw [List.foldl_cons, ih h.2, Nat.ofDigitChars_cons, digitVal_of_isDigit h.1, Nat.mul_comm]

theorem radix_ten (s : Text) : radix 10 s = (10, s) := by
  unfold radix
  split
  · simp
  · rfl
  · rfl

/-- What `scan` sees in base ten: digits, after blanks and a sign. -/
theorem scan_ten (s : Text) : scan 10 s =
    if (sign (s.dropWhile isSpace)).2.takeWhile Char.isDigit = [] then none
    else some ((sign (s.dropWhile isSpace)).1,
      Nat.ofDigitChars 10 ((sign (s.dropWhile isSpace)).2.takeWhile Char.isDigit) 0,
      (sign (s.dropWhile isSpace)).2.dropWhile Char.isDigit) := by
  unfold scan
  dsimp only
  rw [radix_ten]
  simp only [digitVal_lt_ten]
  rw [foldl_digits fun c hc => List.mem_takeWhile_imp hc]

/-- A number stands in front of `s`, with a minus or without one, and `rest` follows its digits. -/
def Stands (s : Text) (neg : Bool) (n : ℕ) (rest : Text) : Prop :=
  ∃ blanks mark digits, Numeral s (signed neg n) blanks mark digits rest ∧
    n = Nat.ofDigitChars 10 digits 0 ∧
    (neg = true ↔ mark = ['-'])

/-- **The numbers that are seen in base ten.** -/
theorem scan_ten_iff {s rest : Text} {neg : Bool} {n : ℕ} :
    scan 10 s = some (neg, n, rest) ↔ Stands s neg n rest := by
  rw [scan_ten]
  constructor
  · intro h
    split at h
    case isTrue => exact absurd h (by simp)
    case isFalse hne =>
        obtain ⟨rfl, hrest⟩ := Prod.mk.inj (Option.some.inj h)
        obtain ⟨rfl, rfl⟩ := Prod.mk.inj hrest
        obtain ⟨mark, hnum, hmark⟩ := numeral_of_digits rfl hne
        exact ⟨_, mark, _, hnum, rfl, hmark⟩
  · rintro ⟨blanks, mark, digits, hnum, hn, hmark⟩
    obtain ⟨neg', hsign, -, hmark'⟩ := hnum.sign_eq
    have hneg : neg' = neg := Bool.eq_iff_iff.mpr (hmark'.trans hmark.symm)
    rw [hsign]
    dsimp only
    rw [hnum.takeWhile_eq, if_neg hnum.ne_nil, hnum.dropWhile_eq, hneg, hn]

/-- Nothing is seen just when no number stands there. -/
theorem scan_ten_none {s : Text} : scan 10 s = none ↔ ∀ neg n rest, ¬ Stands s neg n rest := by
  constructor
  · intro h neg n rest hstands
    rw [scan_ten_iff.mpr hstands] at h
    cases h
  · intro h
    cases hscan : scan 10 s with
    | none => rfl
    | some r => exact absurd (scan_ten_iff.mp hscan) (h r.1 r.2.1 r.2.2)

/-- One number stands there at most. -/
theorem Stands.unique {s rest rest' : Text} {neg neg' : Bool} {n n' : ℕ} (h : Stands s neg n rest)
    (h' : Stands s neg' n' rest') : neg = neg' ∧ n = n' ∧ rest = rest' := by
  have heq := (scan_ten_iff.mpr h).symm.trans (scan_ten_iff.mpr h')
  obtain ⟨hneg, hrest⟩ := Prod.mk.inj (Option.some.inj heq)
  exact ⟨hneg, Prod.mk.inj hrest⟩

/-- What follows a number is shorter. -/
theorem Stands.length_lt {s rest : Text} {neg : Bool} {n : ℕ} (h : Stands s neg n rest) :
    rest.length < s.length := by
  obtain ⟨blanks, mark, digits, hnum, -, -⟩ := h
  have hpos := List.length_pos_iff.mpr hnum.ne_nil
  rw [hnum.eq]
  simp only [List.length_append]
  omega

end Support
