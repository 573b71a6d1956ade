import Mathlib.Algebra.GroupWithZero.Nat
import Mathlib.Algebra.Ring.Int.Defs
import Mathlib.Data.Int.Notation
import Mathlib.Data.List.DropRight
import Mathlib.Order.CompletePartialOrder
import Mathlib.Tactic.Cases

/-!
# Support — Text

Texts as lists of characters, one for each byte, and what the C and C++ libraries make of them.

* `lines`, `render` — a text read with `getline` until it fails, and lines written one after the
other;
* `find`, `substr` — the first place of a character, a part of a text;
* `trim` — a text without the blanks at its ends;
* `strtol`, `sto` — the number that stands in front of a text, `Number` says which texts have one;
* `decimal` — a number written out, which `sto` reads again.
-/

namespace Support

abbrev Text := List Char

/-! ### Lines -/

/-- The lines that `getline` finds.  What follows the last line end is a line only if it is not
empty. -/
def lines : Text → List Text
  | [] => []
  | c :: s =>
    if c = '\n' then [] :: lines s
    else match lines s with
      | [] => [[c]]
      | l :: ls => (c :: l) :: ls

/-- Lines with their line ends. -/
def render (ls : List Text) : Text := ls.flatMap (· ++ ['\n'])

@[simp] theorem render_nil : render [] = [] := rfl

@[simp] theorem render_cons (l : Text) (ls : List Text) :
    render (l :: ls) = l ++ '\n' :: render ls := by
  simp [render]

theorem render_append (ls ms : List Text) : render (ls ++ ms) = render ls ++ render ms := by
  simp [render]

theorem lines_line {l : Text} (h : '\n' ∉ l) (s : Text) :
    lines (l ++ '\n' :: s) = l :: lines s := by
  induction l with
  | nil => simp [lines]
  | cons c l ih =>
      rw [List.mem_cons, not_or] at h
      rw [List.cons_append, lines, if_neg (fun hc => h.1 hc.symm), ih h.2]

/-- Lines come back as they were written, in front of what follows them. -/
theorem lines_render_append {ls : List Text} (h : ∀ l ∈ ls, '\n' ∉ l) (s : Text) :
    lines (render ls ++ s) = ls ++ lines s := by
  induction ls with
  | nil => rfl
  | cons l ls ih =>
      rw [render_cons, List.append_assoc, List.cons_append, lines_line (h l List.mem_cons_self),
        ih fun m hm => h m (List.mem_cons_of_mem _ hm), List.cons_append]

theorem lines_render {ls : List Text} (h : ∀ l ∈ ls, '\n' ∉ l) : lines (render ls) = ls := by
  have := lines_render_append h []
  rwa [List.append_nil, lines, List.append_nil] at this

theorem lines_single {l : Text} (hne : l ≠ []) (hl : '\n' ∉ l) : lines l = [l] := by
  induction l with
  | nil => exact absurd rfl hne
  | cons c l ih =>
      rw [List.mem_cons, not_or] at hl
      rw [lines, if_neg fun hc => hl.1 hc.symm]
      cases l with
      | nil => rfl
      | cons d l => rw [ih (List.cons_ne_nil d l) hl.2]

/-- A part of a text that holds a line has it as a line. -/
theorem lines_take {before : List Text} {l : Text} (hbefore : ∀ m ∈ before, '\n' ∉ m) (hne : l ≠ [])
    (hl : '\n' ∉ l) (after : List Text) {k : ℕ} (hk : (render before).length + l.length ≤ k) :
    ∃ more, lines ((render (before ++ l :: after)).take k) = before ++ l :: more := by
  obtain ⟨j, rfl⟩ := Nat.exists_eq_add_of_le hk
  have hsplit : (render (before ++ l :: after)).take ((render before).length + l.length + j) =
      render before ++ (l ++ ('\n' :: render after).take j) := by
    rw [render_append, render_cons, Nat.add_assoc, List.take_length_add_append,
      List.take_length_add_append]
  rw [hsplit, lines_render_append hbefore]
  cases j with
  | zero => exact ⟨[], by rw [List.take_zero, List.append_nil, lines_single hne hl]⟩
  | succ j => exact ⟨_, by rw [List.take_succ_cons, lines_line hl]⟩

theorem prefix_of_render_prefix {ls ms : List Text} (hl : ∀ l ∈ ls, '\n' ∉ l)
    (hm : ∀ l ∈ ms, '\n' ∉ l) (h : render ls <+: render ms) : ls <+: ms := by
  obtain ⟨t, ht⟩ := h
  refine ⟨lines t, ?_⟩
  rw [← lines_render_append hl, ht, lines_render hm]

/-- No line holds a line end. -/
theorem newline_notMem_of_mem_lines {s l : Text} (h : l ∈ lines s) : '\n' ∉ l := by
  induction s generalizing l with
  | nil => exact absurd h List.not_mem_nil
  | cons c s ih =>
      rw [lines] at h
      split at h
      case isTrue =>
          rcases List.mem_cons.mp h with rfl | h
          · exact List.not_mem_nil
          · exact ih h
      case isFalse hc =>
          cases hs : lines s with
          | nil =>
              rw [hs] at h
              rw [List.mem_singleton.mp h, List.mem_singleton]
              exact fun h => hc h.symm
          | cons m ms =>
              rw [hs] at h
              rcases List.mem_cons.mp h with rfl | h
              · rw [List.mem_cons, not_or]
                exact ⟨fun h => hc h.symm, ih (hs ▸ List.mem_cons_self)⟩
              · exact ih (hs ▸ List.mem_cons_of_mem _ h)

/-! ### Parts -/

/-- The first place of `c` in `s` from `pos` on. -/
def find (c : Char) (s : Text) (pos : ℕ) : Option ℕ := ((s.drop pos).idxOf? c).map (pos + ·)

def substr (s : Text) (pos n : ℕ) : Text := (s.drop pos).take n

theorem find_eq_none {c : Char} {s : Text} {pos : ℕ} (h : c ∉ s.drop pos) :
    find c s pos = none := by
  rw [find, List.idxOf?_eq_none_iff.mpr h]
  rfl

theorem idxOf?_append_cons {c : Char} {a : Text} (h : c ∉ a) (s : Text) :
    (a ++ c :: s).idxOf? c = some a.length := by
  induction a with
  | nil => rw [List.nil_append, List.idxOf?_cons, beq_self_eq_true, if_pos rfl, List.length_nil]
  | cons d a ih =>
      rw [List.mem_cons, not_or] at h
      have hd : (d == c) = false := beq_eq_false_iff_ne.mpr fun heq => h.1 heq.symm
      rw [List.cons_append, List.idxOf?_cons, hd, if_neg Bool.false_ne_true, ih h.2,
        List.length_cons]
      rfl

theorem find_eq_some {c : Char} {a b : Text} (h : c ∉ a) (before : Text) :
    find c (before ++ (a ++ c :: b)) before.length = some (before.length + a.length) := by
  rw [find, List.drop_left, idxOf?_append_cons h]
  rfl

/-! ### Blanks -/

/-- The blanks that are cut off: `" \t\r\n"`. -/
def isBlank (c : Char) : Bool := c = ' ' || c = '\t' || c = '\r' || c = '\n'

/-- A text without the blanks at its ends. -/
def trim (s : Text) : Text := (s.dropWhile isBlank).rdropWhile isBlank

/-- A text that neither starts nor ends with a blank. -/
structure Trimmed (s : Text) : Prop where
  front : ∀ c ∈ s.head?, isBlank c = false
  back : ∀ c ∈ s.getLast?, isBlank c = false

theorem trim_of_trimmed {s : Text} (h : Trimmed s) : trim s = s := by
  have hfront : s.dropWhile isBlank = s := by
    cases s with
    | nil => rfl
    | cons c s => rw [List.dropWhile_cons_of_neg (by rw [h.front c rfl]; exact Bool.false_ne_true)]
  rw [trim, hfront, List.rdropWhile_eq_self_iff]
  intro hne
  rw [h.back _ (List.getLast?_eq_some_getLast hne)]
  exact Bool.false_ne_true

/-- What is left after the blanks in front does not start with one. -/
theorem head?_dropWhile_eq_false {p : Char → Bool} {s : Text} {c : Char}
    (h : c ∈ (s.dropWhile p).head?) :
    p c = false := by
  have := List.head?_dropWhile_not p s
  rwa [Option.mem_def.mp h] at this

theorem trimmed_trim (s : Text) : Trimmed (trim s) where
  front c hc := by
    obtain ⟨u, hu⟩ : trim s <+: s.dropWhile isBlank := List.rdropWhile_prefix _ _
    have hd : c ∈ (s.dropWhile isBlank).head? := by
      rw [← hu, List.head?_append, Option.mem_def.mp hc]
      rfl
    exact head?_dropWhile_eq_false hd
  back c hc := by
    have hne : trim s ≠ [] := by
      intro h
      rw [h] at hc
      exact absurd hc (by simp)
    rw [List.getLast?_eq_some_getLast hne, Option.mem_some_iff] at hc
    rw [← hc]
    exact (Bool.not_eq_true _).mp (List.rdropWhile_last_not _ _ hne)

theorem mem_of_mem_trim {s : Text} {c : Char} (h : c ∈ trim s) : c ∈ s := by
  have hpre : trim s <+: s.dropWhile isBlank := List.rdropWhile_prefix _ _
  exact (List.dropWhile_suffix isBlank).subset (hpre.subset h)

/-- Whether a text has no blanks can be computed. -/
theorem isBlank_eq_false_of_all {s : Text} (h : (s.all fun c => !isBlank c) = true) :
    ∀ c ∈ s, isBlank c = false := by
  intro c hc
  simpa using List.all_eq_true.mp h c hc

theorem trimmed_of_forall {s : Text} (h : ∀ c ∈ s, isBlank c = false) : Trimmed s where
  front c hc := h c (List.mem_of_mem_head? hc)
  back c hc := h c (List.mem_of_mem_getLast? hc)

/-! ### Numbers -/

/-- `isspace` in the C locale. -/
def isSpace (c : Char) : Bool :=
  c = ' ' || c = '\t' || c = '\n' || c = '\x0b' || c = '\x0c' || c = '\r'

/-- A sign and what follows it; `true` is a minus. -/
def sign : Text → Bool × Text
  | '-' :: s => (true, s)
  | '+' :: s => (false, s)
  | s => (false, s)

def signed (neg : Bool) (n : ℕ) : ℤ := if neg then -(n : ℤ) else n

/-- `strtol` in base ten and without its bounds: `none` if no digits are there to be read. -/
def strtol (s : Text) : Option ℤ :=
  let (neg, t) := sign (s.dropWhile isSpace)
  let digits := t.takeWhile Char.isDigit
  if digits = [] then none else some (signed neg (Nat.ofDigitChars 10 digits 0))

def Fits (w : ℕ) (z : ℤ) : Prop := -2 ^ (w - 1) ≤ z ∧ z < 2 ^ (w - 1)

instance (w : ℕ) (z : ℤ) : Decidable (Fits w z) := inferInstanceAs (Decidable (_ ∧ _))

/-- `stoi`, `stoll`: `none` where they throw. -/
def sto (w : ℕ) (s : Text) : Option ℤ := (strtol s).filter fun z => Fits w z

/-- The number `z` stands in front of `s`: blanks, perhaps a sign, digits, and anything that is not
a digit. -/
structure Numeral (s : Text) (z : ℤ) (blanks mark digits rest : Text) : Prop where
  eq : s = blanks ++ (mark ++ (digits ++ rest))
  blank : ∀ c ∈ blanks, isSpace c
  value : (mark = [] ∨ mark = ['+']) ∧ z = Nat.ofDigitChars 10 digits 0 ∨
    mark = ['-'] ∧ z = -(Nat.ofDigitChars 10 digits 0 : ℤ)
  ne_nil : digits ≠ []
  digit : ∀ c ∈ digits, c.isDigit
  after : ∀ c ∈ rest.head?, c.isDigit = false

def Number (s : Text) (z : ℤ) : Prop :=
  ∃ blanks mark digits rest, Numeral s z blanks mark digits rest

theorem sign_of_isDigit {c : Char} (h : c.isDigit) (s : Text) :
    sign (c :: s) = (false, c :: s) := by
  unfold sign
  split
  case h_1 heq =>
      rw [(List.cons.inj heq).1] at h
      exact absurd h (by decide)
  case h_2 heq =>
      rw [(List.cons.inj heq).1] at h
      exact absurd h (by decide)
  case h_3 => rfl

theorem isSpace_of_isDigit {c : Char} (h : c.isDigit) : isSpace c = false := by
  rw [← Bool.not_eq_true]
  intro hs
  unfold isSpace at hs
  simp only [Bool.or_eq_true, decide_eq_true_eq] at hs
  rcases hs with ((((rfl | rfl) | rfl) | rfl) | rfl) | rfl <;> exact absurd h (by decide)

theorem sign_spec (s : Text) :
    ∃ mark, s = mark ++ (sign s).2 ∧
    ((mark = [] ∨ mark = ['+']) ∧ (sign s).1 = false ∨ mark = ['-'] ∧ (sign s).1 = true) := by
  unfold sign
  split
  case h_1 s => exact ⟨['-'], rfl, .inr ⟨rfl, rfl⟩⟩
  case h_2 s => exact ⟨['+'], rfl, .inl ⟨.inr rfl, rfl⟩⟩
  case h_3 s _ _ => exact ⟨[], rfl, .inl ⟨.inl rfl, rfl⟩⟩

variable {s : Text} {z : ℤ} {blanks mark digits rest : Text}

/-- The sign of a number, and what follows it. -/
theorem Numeral.sign_eq (h : Numeral s z blanks mark digits rest) : ∃ neg,
    sign (s.dropWhile isSpace) = (neg, digits ++ rest) ∧
      z = signed neg (Nat.ofDigitChars 10 digits 0) ∧
      (neg = true ↔ mark = ['-']) := by
  obtain ⟨d, ds, hd⟩ := List.exists_cons_of_ne_nil h.ne_nil
  have hdigit : d.isDigit := h.digit d (by rw [hd]; exact List.mem_cons_self)
  rw [h.eq, List.dropWhile_append_of_pos h.blank]
  rcases h.value with ⟨rfl | rfl, hz⟩ | ⟨rfl, hz⟩
  · refine ⟨false, ?_, hz, by simp⟩
    rw [List.nil_append, hd, List.cons_append,
      List.dropWhile_cons_of_neg (by rw [isSpace_of_isDigit hdigit]; exact Bool.false_ne_true),
      sign_of_isDigit hdigit]
  · exact ⟨false, rfl, hz, by simp⟩
  · exact ⟨true, rfl, hz, by simp⟩

theorem Numeral.takeWhile_eq (h : Numeral s z blanks mark digits rest) :
    (digits ++ rest).takeWhile Char.isDigit = digits := by
  rw [List.takeWhile_append_of_pos h.digit]
  cases hr : rest with
  | nil => rw [List.takeWhile_nil, List.append_nil]
  | cons c r =>
      have hc := h.after c (by rw [hr]; rfl)
      rw [List.takeWhile_cons_of_neg (by rw [hc]; exact Bool.false_ne_true), List.append_nil]

theorem Numeral.dropWhile_eq (h : Numeral s z blanks mark digits rest) :
    (digits ++ rest).dropWhile Char.isDigit = rest := by
  have hsplit := List.takeWhile_append_dropWhile (p := Char.isDigit) (l := digits ++ rest)
  rw [h.takeWhile_eq] at hsplit
  exact List.append_cancel_left hsplit

theorem Numeral.strtol_eq (h : Numeral s z blanks mark digits rest) : strtol s = some z := by
  obtain ⟨neg, hsign, hz, -⟩ := h.sign_eq
  unfold strtol
  rw [hsign]
  dsimp only
  rw [h.takeWhile_eq, if_neg h.ne_nil, hz]

/-- What stands in front of a text whose blanks and sign are followed by digits. -/
theorem numeral_of_digits {neg : Bool} {t : Text} (hsign : sign (s.dropWhile isSpace) = (neg, t))
    (hne : t.takeWhile Char.isDigit ≠ []) : ∃ mark,
      Numeral s (signed neg (Nat.ofDigitChars 10 (t.takeWhile Char.isDigit) 0))
          (s.takeWhile isSpace) mark
        (t.takeWhile Char.isDigit) (t.dropWhile Char.isDigit) ∧ (neg = true ↔ mark = ['-']) := by
  obtain ⟨mark, hmark, hneg⟩ := sign_spec (s.dropWhile isSpace)
  rw [hsign] at hmark hneg
  dsimp only at hmark hneg
  refine ⟨mark, ⟨?_, fun c hc => List.mem_takeWhile_imp hc, ?_, hne, fun c hc =>
    List.mem_takeWhile_imp hc, fun c hc => head?_dropWhile_eq_false hc⟩, ?_⟩
  · rw [List.takeWhile_append_dropWhile, ← hmark, List.takeWhile_append_dropWhile]
  · rcases hneg with ⟨hm, rfl⟩ | ⟨hm, rfl⟩
    · exact .inl ⟨hm, rfl⟩
    · exact .inr ⟨hm, rfl⟩
  · rcases hneg with ⟨rfl | rfl, rfl⟩ | ⟨rfl, rfl⟩ <;> simp

/-- **The numbers that are read**: `strtol` finds a number in front of a text just when there is
one, whatever stands after it. -/
theorem strtol_eq_some_iff {s : Text} {z : ℤ} : strtol s = some z ↔ Number s z := by
  refine ⟨fun h => ?_, fun ⟨_, _, _, _, h⟩ => h.strtol_eq⟩
  unfold strtol at h
  cases hsign : sign (s.dropWhile isSpace) with
  | mk neg t =>
      rw [hsign] at h
      dsimp only at h
      split at h
      case isTrue => exact absurd h (by simp)
      case isFalse hne =>
          obtain ⟨mark, hnum, -⟩ := numeral_of_digits hsign hne
          rw [← Option.some.inj h]
          exact ⟨_, mark, _, _, hnum⟩

theorem sto_eq_some_iff {w : ℕ} {s : Text} {z : ℤ} : sto w s = some z ↔ Number s z ∧ Fits w z := by
  rw [sto, Option.filter_eq_some_iff, strtol_eq_some_iff, decide_eq_true_iff]

/-! ### Numbers written out -/

/-- A number as `<<` writes it. -/
def decimal (z : ℤ) : Text :=
  if z < 0 then '-' :: Nat.toDigits 10 z.natAbs else Nat.toDigits 10 z.natAbs

theorem number_decimal (z : ℤ) : Number (decimal z) z := by
  have hdigit : ∀ c ∈ Nat.toDigits 10 z.natAbs, c.isDigit :=
    fun c hc => Nat.isDigit_of_mem_toDigits (by decide) (by decide) hc
  unfold decimal
  split
  case isTrue hz =>
      refine ⟨[], ['-'], Nat.toDigits 10 z.natAbs, [],
        ⟨by simp, by simp, .inr ⟨rfl, ?_⟩, Nat.toDigits_ne_nil, hdigit, by simp⟩⟩
      rw [Nat.ofDigitChars_ten_toDigits]
      omega
  case isFalse hz =>
      refine ⟨[], [], Nat.toDigits 10 z.natAbs, [],
        ⟨by simp, by simp, .inl ⟨.inl rfl, ?_⟩, Nat.toDigits_ne_nil, hdigit, by simp⟩⟩
      rw [Nat.ofDigitChars_ten_toDigits]
      omega

/-- A number that fits is read as it was written. -/
theorem sto_decimal {w : ℕ} {z : ℤ} (h : Fits w z) : sto w (decimal z) = some z :=
  sto_eq_some_iff.mpr ⟨number_decimal z, h⟩

/-- A number is written with digits and a minus. -/
theorem mem_decimal {z : ℤ} {c : Char} (h : c ∈ decimal z) : c = '-' ∨ c.isDigit := by
  unfold decimal at h
  split at h
  case isTrue =>
      rcases List.mem_cons.mp h with rfl | h
      · exact .inl rfl
      · exact .inr (Nat.isDigit_of_mem_toDigits (by decide) (by decide) h)
  case isFalse => exact .inr (Nat.isDigit_of_mem_toDigits (by decide) (by decide) h)

theorem isBlank_of_mem_decimal {z : ℤ} {c : Char} (h : c ∈ decimal z) : isBlank c = false := by
  rcases mem_decimal h with rfl | h
  · decide
  · rw [← Bool.not_eq_true]
    intro hs
    unfold isBlank at hs
    simp only [Bool.or_eq_true, decide_eq_true_eq] at hs
    rcases hs with ((rfl | rfl) | rfl) | rfl <;> exact absurd h (by decide)

theorem trim_decimal (z : ℤ) : trim (decimal z) = decimal z :=
  trim_of_trimmed (trimmed_of_forall fun _ => isBlank_of_mem_decimal)

theorem newline_notMem_decimal (z : ℤ) : '\n' ∉ decimal z :=
  fun h => absurd (isBlank_of_mem_decimal h) (by decide)

end Support
