import Mathlib.Data.Int.Notation
import RpiBsp.Support.CString

/-!
# Startup — the boot arguments

The block of arguments and environment strings that the image builder packs behind a header, and the
edits of `bootstrap_cmdline.c`.  Offsets are from the first byte of `args`; an edit reads from
before it when the new string is longer than what comes before.

* `Block` — the strings, the bytes behind them, and the counts and sizes that go with them;
* `skip_spec`, `seek_eq_inl`, `seek_eq_inr` — where the loops over the strings end;
* `holds_operate` — the one move and the copy replace bytes in the middle;
* `do_adjust_spec`, `adjust_spec` — **main**: both functions edit their list and nothing else.
-/

namespace Startup

open Support

/-! ### Definitions -/

/-- `struct bootargs_entry`, with the memory around `args`. -/
structure Bootargs where
  size_lo : ℕ
  size_hi : ℕ
  argc : ℤ
  envc : ℤ
  mem : ℤ → UInt8

namespace Bootargs

def args (b : Bootargs) (i : ℕ) : UInt8 := b.mem i

/-- `offsetof(struct bootargs_entry, args)`. -/
def HEADER : ℕ := 8

/-- The bytes a block has at most. -/
def SIZE_MAX : ℕ := 65536

/-- The list that an edit is for. -/
inductive Kind where
  | arg
  | env
deriving DecidableEq, Repr

def count (b : Bootargs) : Kind → ℤ
  | .arg => b.argc
  | .env => b.envc

def int8 (x : ℤ) : ℤ := (x + 128) % 256 - 128

def unsigned (x : ℤ) : ℕ := (x % 2 ^ 32).toNat

def setCount (b : Bootargs) (x : ℤ) : Kind → Bootargs
  | .arg => { b with argc := int8 x }
  | .env => { b with envc := int8 x }

/-- Go past strings. -/
def skip (f : ℕ → UInt8) : ℕ → ℕ → ℕ
  | 0, p => p
  | start + 1, p => skip f start (p + (strlen f SIZE_MAX p + 1))

/-- Look for the old string among the next ones: its place and its size, or the place behind
them. -/
def seek (f : ℕ → UInt8) (old : Option CString) : ℕ → ℕ → (ℕ × ℕ) ⊕ ℕ
  | 0, p => .inr p
  | num + 1, p =>
    let sub_len := strlen f SIZE_MAX p + 1
    if old.any fun o => streq f o.chars p then .inl (p, sub_len) else seek f old num (p + sub_len)

/-- `memmove` and `memcpy`, with offsets. -/
def move (dst src : ℤ) (n : ℕ) (mem : ℤ → UInt8) : ℤ → UInt8 :=
  fun j => if dst ≤ j ∧ j < dst + n then mem (src + (j - dst)) else mem j

def copy (dst : ℕ) (l : List UInt8) (mem : ℤ → UInt8) : ℤ → UInt8 :=
  fun j => if (dst : ℤ) ≤ j ∧ j < (dst : ℤ) + l.length then l.getD (j - dst).toNat 0 else mem j

/-- The bytes that are added. -/
def added (new : Option CString) : List UInt8 :=
  match new with
  | none => []
  | some n => n.bytes

/-- What is done from `do_operation` on. -/
def operate (b : Bootargs) (old new : Option CString) (k : Kind) (p sub_len : ℕ) : Bootargs :=
  let count := if new.isNone then b.count k - 1 else if old.isNone then b.count k + 1 else b.count k
  let add_len := (added new).length
  let total_len : ℕ := b.size_lo + b.size_hi * 2 ^ 8
  let diff : ℤ := (add_len : ℤ) - sub_len
  let src : ℤ := p - diff
  let mem := move p src (((total_len : ℤ) - HEADER - src) % 2 ^ 64).toNat b.mem
  let mem := if add_len > 0 then copy p (added new) mem else mem
  let total_len := unsigned ((total_len : ℤ) + diff)
  { b.setCount count k with mem := mem, size_lo := total_len % 256, size_hi := total_len / 2 ^
    8 % 256 }

/-- The return value and the block. -/
def do_adjust (b : Bootargs) (old new : Option CString) (start : ℤ) (k : Kind) : ℕ × Bootargs :=
  match seek b.args old (unsigned (b.count k)) (skip b.args (unsigned start) 0) with
  | .inl (p, sub_len) => (1, b.operate old new k p sub_len)
  | .inr p => if old.isNone then (1, b.operate old new k p 0) else (0, b)

def bootstrap_arg_adjust (b : Bootargs) (old new : Option CString) : ℕ × Bootargs :=
  b.do_adjust old new 0 .arg

def bootstrap_env_adjust (b : Bootargs) (old new : Option CString) : ℕ × Bootargs :=
  b.do_adjust old new b.argc .env

/-! ### Well-formed blocks -/

/-- Strings one behind the other. -/
def strings (l : List CString) : List UInt8 := l.flatMap CString.bytes

theorem strings_append (l m : List CString) : strings (l ++ m) = strings l ++ strings m :=
  List.flatMap_append

theorem strings_cons (c : CString) (l : List CString) : strings (c :: l) = c.bytes ++ strings l :=
  List.flatMap_cons

@[simp] theorem strings_nil : strings [] = [] := rfl

/-- A block with its two lists of strings and the bytes behind them. -/
structure Block (b : Bootargs) (args envs : List CString) (trailing : List UInt8) : Prop where
  argc : b.argc = args.length
  envc : b.envc = envs.length
  size_lo : b.size_lo < 256
  size_hi : b.size_hi < 256
  size : b.size_lo + b.size_hi * 2 ^ 8 = HEADER + (strings args ++ strings envs ++ trailing).length
  holds : Holds b.args 0 (strings args ++ strings envs ++ trailing)

/-- The list edit that `old` and `new` name; `none` if there is no string to replace. -/
def edit (old new : Option CString) (l : List CString) : Option (List CString) :=
  match old, new with
  | none, new => some (l ++ new.toList)
  | some o, none => if o ∈ l then some (l.erase o) else none
  | some o, some n => if o ∈ l then some (l.replace o n) else none

/-! ### The loops -/

theorem strlen_string {f : ℕ → UInt8} {p : ℕ} {c : CString} {rest : List UInt8}
    (h : Holds f p (c.bytes ++ rest)) (hc : c.length < SIZE_MAX) : strlen f SIZE_MAX p = c.length :=
  strlen_of_holds c.nul_free (holds_append.mp h).1 hc

theorem skip_spec {f : ℕ → UInt8} {l : List CString} {p : ℕ} {rest : List UInt8}
    (h : Holds f p (strings l ++ rest))
    (hl : (strings l).length < SIZE_MAX) : skip f l.length p = p + (strings l).length := by
  induction l generalizing p with
  | nil => rfl
  | cons c l ih =>
    rw [strings_cons, List.append_assoc] at h
    rw [strings_cons, List.length_append, CString.length_bytes] at hl
    rw [List.length_cons, skip, strlen_string h (by omega)]
    have hrest := (holds_append.mp h).2
    rw [CString.length_bytes] at hrest
    rw [ih hrest (by omega), strings_cons, List.length_append, CString.length_bytes]
    omega

/-- The string at a place is another one. -/
theorem streq_false {f : ℕ → UInt8} {p : ℕ} {c o : CString} {rest : List UInt8}
    (h : Holds f p (c.bytes ++ rest)) (hne : c ≠ o) : streq f o.chars p = false := by
  rw [Bool.eq_false_iff, ne_eq, streq_iff]
  intro ho
  exact hne (CString.ext_chars (eq_of_holds c.nul_free o.nul_free (holds_append.mp h).1 ho))

/-- The first string that is the old one is found. -/
theorem seek_eq_inl {f : ℕ → UInt8} {o : CString} {l m : List CString} (ho : o ∉ l) {p : ℕ}
    {rest : List UInt8}
    (h : Holds f p (strings (l ++ o :: m) ++ rest))
    (hl : (strings (l ++ o :: m)).length < SIZE_MAX) :
    seek f (some o) (l ++ o :: m).length p = .inl (p + (strings l).length, o.length + 1) := by
  induction l generalizing p with
  | nil =>
    rw [List.nil_append, strings_cons, List.append_assoc] at h
    rw [List.nil_append, strings_cons, List.length_append, CString.length_bytes] at hl
    have hs : streq f o.chars p = true := streq_iff.mpr (holds_append.mp h).1
    rw [List.nil_append, List.length_cons, seek, strlen_string h (by omega)]
    simp [hs]
  | cons c l ih =>
    rw [List.mem_cons, not_or] at ho
    rw [List.cons_append, strings_cons, List.append_assoc] at h
    rw [List.cons_append, strings_cons, List.length_append, CString.length_bytes] at hl
    have hs := streq_false h (Ne.symm ho.1)
    have hrest := (holds_append.mp h).2
    rw [CString.length_bytes] at hrest
    rw [List.cons_append, List.length_cons, seek, strlen_string h (by omega)]
    simp only [Option.any_some, hs, Bool.false_eq_true, if_false]
    rw [ih ho.2 hrest (by omega), strings_cons, List.length_append, CString.length_bytes,
      Nat.add_assoc]

/-- If there is none, the loop ends behind the strings. -/
theorem seek_eq_inr {f : ℕ → UInt8} (old : Option CString) {l : List CString}
    (ho : ∀ o ∈ old, o ∉ l) {p : ℕ}
    {rest : List UInt8} (h : Holds f p (strings l ++ rest)) (hl : (strings l).length < SIZE_MAX) :
    seek f old l.length p = .inr (p + (strings l).length) := by
  induction l generalizing p with
  | nil => rfl
  | cons c l ih =>
    rw [strings_cons, List.append_assoc] at h
    rw [strings_cons, List.length_append, CString.length_bytes] at hl
    have hs : (old.any fun o => streq f o.chars p) = false := by
      cases old with
      | none => rfl
      | some o => exact streq_false h fun hc => ho o rfl (hc ▸ List.mem_cons_self)
    have hrest := (holds_append.mp h).2
    rw [CString.length_bytes] at hrest
    rw [List.length_cons, seek, strlen_string h (by omega)]
    simp only [hs, Bool.false_eq_true, if_false]
    rw [ih (fun o hm hc => ho o hm (List.mem_cons_of_mem c hc)) hrest (by omega), strings_cons,
      List.length_append, CString.length_bytes, Nat.add_assoc]

/-! ### The edit -/

theorem holds_move {b : Bootargs} {dst n i i' : ℕ} {src : ℤ} {l : List UInt8} (h : Holds b.args i l)
    (hd : dst ≤ i' ∧ i' + l.length ≤ dst + n) (hs : src + (i' - dst) = i) :
    Holds (fun j : ℕ => move dst src n b.mem j) i' l := by
  intro j hj
  have he : src + (((i' + j : ℕ) : ℤ) - dst) = (i + j : ℕ) := by omega
  simp only [move]
  rw [if_pos (by omega), he, ← h j hj, args]

theorem holds_move_below {b : Bootargs} {dst n i : ℕ} {src : ℤ} {l : List UInt8}
    (h : Holds b.args i l)
    (hd : i + l.length ≤ dst) : Holds (fun j : ℕ => move dst src n b.mem j) i l := by
  intro j hj
  simp only [move]
  rw [if_neg (by omega), ← h j hj, args]

theorem holds_copy (dst : ℕ) (l : List UInt8) (mem : ℤ → UInt8) :
    Holds (fun j : ℕ => copy dst l mem j) dst l := by
  intro j hj
  have he : (((dst + j : ℕ) : ℤ) - dst).toNat = j := by omega
  simp only [copy]
  rw [if_pos (by omega), he, List.getD_eq_getElem?_getD, List.getElem?_eq_getElem hj,
    Option.getD_some]

theorem holds_copy_apart {dst i : ℕ} {l m : List UInt8} {mem : ℤ → UInt8}
    (h : Holds (fun j : ℕ => mem j) i m)
    (hd : i + m.length ≤ dst ∨ dst + l.length ≤ i) : Holds (fun j : ℕ => copy dst l mem j) i m := by
  intro j hj
  simp only [copy]
  rw [if_neg (by omega), ← h j hj]

/-- The memory after the move and the copy. -/
def edited (b : Bootargs) (new : Option CString) (p n : ℕ) (src : ℤ) : ℤ → UInt8 :=
  if (added new).length > 0 then copy p (added new) (move p src n b.mem) else move p src n b.mem

theorem holds_edited {b : Bootargs} {new : Option CString} {p n i : ℕ} {src : ℤ} {l : List UInt8}
    (h : Holds (fun j : ℕ => move p src n b.mem j) i l)
    (hd : i + l.length ≤ p ∨ p + (added new).length ≤ i) :
    Holds (fun j : ℕ => edited b new p n src j) i l := by
  simp only [edited]
  split
  · exact holds_copy_apart h hd
  · exact h

theorem holds_added (b : Bootargs) (new : Option CString) (p n : ℕ) (src : ℤ) :
    Holds (fun j : ℕ => edited b new p n src j) p (added new) := by
  simp only [edited]
  split
  case isTrue => exact holds_copy p (added new) _
  case isFalse h =>
    obtain h₀ : added new = [] := List.eq_nil_of_length_eq_zero (by omega)
    rw [h₀]
    exact .nil _ _

/-- **The edit.**  The bytes at a place are replaced, those before them stay, and those behind them
follow. -/
theorem holds_operate {b : Bootargs} {old new : Option CString} {k : Kind} {l m r : List UInt8}
    (h : Holds b.args 0 (l ++ m ++ r))
    (hsize : b.size_lo + b.size_hi * 2 ^ 8 = HEADER + (l ++ m ++ r).length)
    (hfit : HEADER + (l ++ added new ++ r).length < SIZE_MAX) :
    Holds (b.operate old new k l.length m.length).args 0 (l ++ added new ++ r) := by
  obtain ⟨hlm, hr⟩ := holds_append.mp h
  obtain ⟨hl, -⟩ := holds_append.mp hlm
  simp only [List.length_append, HEADER, SIZE_MAX] at hsize hfit
  have hn : ((((b.size_lo + b.size_hi * 2 ^ 8 : ℕ) : ℤ) - HEADER -
      (l.length - (((added new).length : ℤ) - m.length))) %
      2 ^ 64).toNat = r.length + (added new).length := by
    rw [hsize]
    simp only [HEADER]
    omega
  have hmem : (b.operate old new k l.length m.length).args =
      fun j : ℕ => edited b new l.length (r.length + (added new).length)
        (l.length - (((added new).length : ℤ) - m.length)) j := by
    funext j
    simp only [args, operate, hn, edited]
  rw [hmem, List.append_assoc, holds_append, holds_append]
  refine ⟨?_, ?_, ?_⟩
  · exact holds_edited (holds_move_below hl (by omega)) (.inl (by omega))
  · rw [Nat.zero_add]
    exact holds_added b new _ _ _
  · refine holds_edited (holds_move hr (by omega) ?_) (.inr (by omega))
    rw [List.length_append]
    omega

theorem size_operate {b : Bootargs} (old : Option CString) {new : Option CString} (k : Kind)
    {l m r : List UInt8} (hsize : b.size_lo + b.size_hi * 2 ^ 8 = HEADER + (l ++ m ++ r).length)
    (hfit : HEADER + (l ++ added new ++ r).length < SIZE_MAX) :
    (b.operate old new k l.length m.length).size_lo < 256 ∧
    (b.operate old new k l.length m.length).size_hi < 256 ∧
    (b.operate old new k l.length m.length).size_lo +
        (b.operate old new k l.length m.length).size_hi * 2 ^ 8 =
      HEADER + (l ++ added new ++ r).length := by
  simp only [List.length_append, HEADER, SIZE_MAX] at hsize hfit ⊢
  simp only [operate, hsize, unsigned]
  omega

theorem int8_of_lt {n : ℕ} (h : n < 128) : int8 n = n := by
  simp only [int8]
  omega

/-- What an edit of a list comes to: the strings before and behind it, and what its count
becomes. -/
theorem edit_cases {old new : Option CString} {list list' : List CString}
    (hnn : ¬ (old = none ∧ new = none)) (h : edit old new list = some list') :
    (old = none ∧ (∃ n, new = some n ∧ list' = list ++ [n])) ∨
    (∃ o l m, old = some o ∧ o ∉ l ∧ list = l ++ o :: m ∧ list' = l ++ new.toList ++ m) := by
  cases old with
  | none =>
    cases new with
    | none => exact absurd ⟨rfl, rfl⟩ hnn
    | some n =>
      cases h
      exact .inl ⟨rfl, n, rfl, rfl⟩
  | some o =>
    by_cases ho : o ∈ list
    · obtain ⟨l, m, rfl, hl⟩ := List.eq_append_cons_of_mem ho
      refine .inr ⟨o, l, m, rfl, hl, rfl, ?_⟩
      cases new with
      | none =>
        rw [edit, if_pos ho, Option.some.injEq] at h
        rw [← h, List.erase_append_right _ hl, List.erase_cons_head, Option.toList_none,
          List.append_nil]
      | some n =>
        rw [edit, if_pos ho, Option.some.injEq] at h
        rw [← h, List.replace_append_right hl, List.replace_cons_self, Option.toList_some,
          List.append_assoc]
        rfl
    · cases new with
      | none => simp [edit, ho] at h
      | some n => simp [edit, ho] at h

theorem edit_eq_none {old new : Option CString} {list : List CString}
    (h : edit old new list = none) :
    ∃ o, old = some o ∧ o ∉ list := by
  cases old with
  | none => cases h
  | some o =>
    refine ⟨o, rfl, fun ho => ?_⟩
    cases new with
    | none => simp [edit, ho] at h
    | some n => simp [edit, ho] at h

theorem strings_toList (new : Option CString) : strings new.toList = added new := by
  cases new with
  | none => rfl
  | some n => simp [strings, added]

/-- The block as an edit of one list sees it: the strings before the list, the list, and the bytes
behind it. -/
structure View (b : Bootargs) (k : Kind) (pre list : List CString) (rest : List UInt8) : Prop where
  count : b.count k = list.length
  size_lo : b.size_lo < 256
  size_hi : b.size_hi < 256
  size : b.size_lo + b.size_hi * 2 ^ 8 = HEADER + (strings pre ++ strings list ++ rest).length
  holds : Holds b.args 0 (strings pre ++ strings list ++ rest)

theorem count_operate {b : Bootargs} {old new : Option CString} {k : Kind} {p n : ℕ} {x : ℤ}
    (h : (if new.isNone then b.count k - 1 else if old.isNone then b.count k + 1
      else b.count k) = x) :
    (b.operate old new k p n).count k = int8 x := by
  cases k with
  | arg => simp [operate, setCount, count, ← h]
  | env => simp [operate, setCount, count, ← h]

theorem View.operate {b : Bootargs} {k : Kind} {pre list list' : List CString} {rest : List UInt8}
    (v : View b k pre list rest) (l m r : List UInt8) (old new : Option CString)
    (hold : strings pre ++ strings list ++ rest = l ++ m ++ r)
    (hnew : strings pre ++ strings list' ++ rest = l ++ added new ++ r)
    (hcount : (if new.isNone then b.count k - 1 else if old.isNone then b.count k + 1
      else b.count k) = (list'.length : ℤ))
    (hle : list'.length < 128)
    (hfit : HEADER + (strings pre ++ strings list' ++ rest).length < SIZE_MAX) :
    View (b.operate old new k l.length m.length) k pre list' rest := by
  have hsize := v.size
  have hholds := v.holds
  rw [hold] at hsize hholds
  rw [hnew] at hfit
  obtain ⟨hlo, hhi, hs⟩ := size_operate old k hsize hfit
  refine ⟨?_, hlo, hhi, by rw [hs, hnew], ?_⟩
  · rw [count_operate hcount, int8_of_lt hle]
  · rw [hnew]
    exact holds_operate hholds hsize hfit

/-- The other count. -/
def Kind.other : Kind → Kind
  | .arg => .env
  | .env => .arg

theorem count_other (b : Bootargs) (old new : Option CString) (k : Kind) (p n : ℕ) :
    (b.operate old new k p n).count k.other = b.count k.other := by
  cases k <;> rfl

/-- What comes back, and what becomes of the list and its surroundings. -/
def Edits (b : Bootargs) (r : ℕ × Bootargs) (list' : Option (List CString))
    (P : Bootargs → List CString → Prop) : Prop :=
  match list' with
  | none => r = (0, b)
  | some l => r.1 = 1 ∧ P r.2 l

/-- **An edit of one list.** -/
theorem do_adjust_spec {b : Bootargs} {k : Kind} {pre list : List CString} {rest : List UInt8}
    {old new : Option CString}
    (v : View b k pre list rest) (hpre : pre.length < 128) (hlist : list.length < 127)
    (hnn : ¬ (old = none ∧ new = none))
    (hfit : ∀ l ∈ edit old new list, HEADER + (strings pre ++ strings l ++ rest).length <
      SIZE_MAX) :
    Edits b (b.do_adjust old new pre.length k) (edit old new list) fun b' l =>
      View b' k pre l rest ∧ b'.count k.other = b.count k.other := by
  have hlen : (strings pre ++ strings list ++ rest).length < SIZE_MAX := by
    have h := v.size
    have hlo := v.size_lo
    have hhi := v.size_hi
    simp only [HEADER, SIZE_MAX] at h ⊢
    omega
  simp only [List.length_append] at hlen
  have hh := v.holds
  rw [List.append_assoc] at hh
  have hskip : skip b.args (unsigned pre.length) 0 = (strings pre).length := by
    have he : unsigned (pre.length : ℤ) = pre.length := by
      simp only [unsigned]
      omega
    rw [he, skip_spec hh (by omega), Nat.zero_add]
  have hnum : unsigned (b.count k) = list.length := by
    rw [v.count]
    simp only [unsigned]
    omega
  have hlist' := (holds_append.mp hh).2
  rw [Nat.zero_add] at hlist'
  rw [do_adjust, hskip, hnum]
  cases he : edit old new list with
  | none =>
    obtain ⟨o, rfl, ho⟩ := edit_eq_none he
    have hs := seek_eq_inr (some o) (fun o' hm => by cases hm; exact ho) hlist' (by omega)
    simp [Edits, hs]
  | some list' =>
    have hfit := hfit list' he
    rcases edit_cases hnn he with ⟨rfl, n, rfl, rfl⟩ | ⟨o, l, m, rfl, ho, rfl, rfl⟩
    · have hs := seek_eq_inr none (fun o' hm => nomatch hm) hlist' (by omega)
      have hview := v.operate (strings pre ++ strings list) [] rest none (some n) (by simp)
        (by simp [strings, added]) (by simp [v.count]) (by simp; omega) hfit
      rw [List.length_append] at hview
      simp only [Edits, hs]
      exact ⟨rfl, hview, count_other _ _ _ _ _ _⟩
    · have hs := seek_eq_inl ho hlist' (by omega)
      have hview := v.operate (strings pre ++ strings l) o.bytes (strings m ++ rest) (some o) new
        (by simp [strings_append, strings_cons]) (by simp [strings_append, strings_toList])
        (by cases new <;> simp [v.count]; omega) (by cases new <;> simp at hlist ⊢ <;> omega) hfit
      rw [List.length_append, CString.length_bytes] at hview
      simp only [Edits, hs]
      exact ⟨trivial, hview, count_other _ _ _ _ _ _⟩

theorem Block.arg_adjust {b : Bootargs} {args envs : List CString} {trailing : List UInt8}
    (h : Block b args envs trailing) (hargc : args.length < 127) (old new : Option CString)
    (hnn : ¬ (old = none ∧ new = none))
    (hfit : ∀ l ∈ edit old new args, HEADER + (strings l ++ strings envs ++ trailing).length <
      SIZE_MAX) :
    Edits b (b.bootstrap_arg_adjust old new) (edit old new args) fun b' l =>
      Block b' l envs trailing := by
  have v : View b .arg [] args (strings envs ++ trailing) :=
    ⟨h.argc, h.size_lo, h.size_hi, by rw [h.size]; simp, by have := h.holds; simpa using this⟩
  have hs := do_adjust_spec (k := .arg) v (by decide) hargc hnn fun l hl => by
    have := hfit l hl
    simpa using this
  rw [bootstrap_arg_adjust]
  cases he : edit old new args with
  | none =>
    rw [he] at hs
    exact hs
  | some l =>
    rw [he] at hs
    obtain ⟨h1, hv, ho⟩ := hs
    refine ⟨h1, hv.count, ho.trans h.envc, hv.size_lo, hv.size_hi, ?_, ?_⟩
    · have := hv.size
      simpa using this
    · have := hv.holds
      simpa using this

theorem Block.env_adjust {b : Bootargs} {args envs : List CString} {trailing : List UInt8}
    (h : Block b args envs trailing) (hargc : args.length < 127) (henvc : envs.length < 127)
    (old new : Option CString)
    (hnn : ¬ (old = none ∧ new = none))
    (hfit : ∀ l ∈ edit old new envs, HEADER + (strings args ++ strings l ++ trailing).length <
      SIZE_MAX) :
    Edits b (b.bootstrap_env_adjust old new) (edit old new envs) fun b' l =>
      Block b' args l trailing := by
  have v : View b .env args envs trailing := ⟨h.envc, h.size_lo, h.size_hi, h.size, h.holds⟩
  have hs := do_adjust_spec (k := .env) v (by omega) henvc hnn hfit
  rw [bootstrap_env_adjust, h.argc]
  cases he : edit old new envs with
  | none =>
    rw [he] at hs
    exact hs
  | some l =>
    rw [he] at hs
    obtain ⟨h1, hv, ho⟩ := hs
    exact ⟨h1, ho.trans h.argc, hv.count, hv.size_lo, hv.size_hi, hv.size, hv.holds⟩

/-- **The boot arguments.**  In every well-formed block both functions make the edit of their list
that `old` and `new` name, or come back with 0 and no change if there is no string to replace;
counts and size go with it, and the other list and the bytes behind it stay as they are. -/
theorem adjust_spec {b : Bootargs} {args envs : List CString} {trailing : List UInt8}
    (h : Block b args envs trailing)
    (hargc : args.length < 127) (henvc : envs.length < 127) (old new : Option CString)
    (hnn : ¬ (old = none ∧ new = none)) :
    ((∀ l ∈ edit old new args, HEADER + (strings l ++ strings envs ++ trailing).length < SIZE_MAX) →
      Edits b (b.bootstrap_arg_adjust old new) (edit old new args) fun b' l =>
        Block b' l envs trailing) ∧
    ((∀ l ∈ edit old new envs, HEADER + (strings args ++ strings l ++ trailing).length < SIZE_MAX) →
      Edits b (b.bootstrap_env_adjust old new) (edit old new envs) fun b' l =>
        Block b' args l trailing) :=
  ⟨h.arg_adjust hargc old new hnn, h.env_adjust hargc henvc old new hnn⟩

/-- The block with these strings and bytes. -/
def packed (args envs : List CString) (trailing : List UInt8) : Bootargs :=
  let bytes := strings args ++ strings envs ++ trailing
  { size_lo := (HEADER + bytes.length) % 256
    size_hi := (HEADER + bytes.length) / 256
    argc := args.length
    envc := envs.length
    mem := fun j => bytes.getD j.toNat 0 }

theorem block_packed {args envs : List CString} {trailing : List UInt8}
    (h : HEADER + (strings args ++ strings envs ++ trailing).length < SIZE_MAX) :
    Block (packed args envs trailing) args envs trailing where
  argc := rfl
  envc := rfl
  size_lo := Nat.mod_lt _ (by decide)
  size_hi := Nat.div_lt_of_lt_mul h
  size := by simp only [packed]; omega
  holds := by
    intro j hj
    simp only [Bootargs.args, packed, Nat.zero_add, Int.toNat_natCast, List.getD_eq_getElem?_getD,
      List.getElem?_eq_getElem hj, Option.getD_some]

/-- `startup -v`, `-D8250`, `A=1`, and the address of a header. -/
def startup : CString := ⟨[0x73, 0x74, 0x61, 0x72, 0x74, 0x75, 0x70], by decide⟩
def v : CString := ⟨[0x2d, 0x76], by decide⟩
def d8250 : CString := ⟨[0x2d, 0x44, 0x38, 0x32, 0x35, 0x30], by decide⟩
def a1 : CString := ⟨[0x41, 0x3d, 0x31], by decide⟩
def header : List UInt8 := [0, 0, 0, 0, 1, 0, 0, 0]

/-- `-v` becomes `-D8250`. -/
theorem adjust_startup_v : Edits (packed [startup, v] [a1] header)
    ((packed [startup, v] [a1] header).bootstrap_arg_adjust (some v) (some d8250))
    (edit (some v) (some d8250) [startup, v]) fun b' l => Block b' l [a1] header :=
  (adjust_spec (block_packed (by decide)) (by decide) (by decide) (some v) (some d8250) nofun).1
    (by decide)

example : edit (some v) (some d8250) [startup, v] = some [startup, d8250] := by decide

end Bootargs

end Startup
