import RpiBsp.Support.Access
import RpiBsp.Support.Memory
import RpiBsp.Support.Text

/-!
# Startup — formatted output

`vmsg` of `kprintf.c` walks a format and hands each character to `print_char`; `ksprintf` and
`ksnprintf` let it write into a buffer, all characters or the first `num`.

* `vmsg_leaves` — whatever `print_char` is: it is handed the text that the format and the
  arguments stand for (`formatted`);
* `vmsg_past` — a format that ends in a single `%` is read behind its end;
* `ksnprintf_bounded_iff` — **main**: exactly when `ksnprintf` stays in its buffer and its format.
-/

namespace Startup.Kprintf

open Support Touching

/-! ### The state -/

/-- Where the accesses go.  The digits are counted from the end of their buffer. -/
inductive Region where
  | fmt
  | buf
  | buff
deriving DecidableEq

/-- What `print_char` points to. -/
inductive PrintChar where
  | string_print_char
  | string_print_n_char
  /-- The board's. -/
  | other
deriving DecidableEq, Repr

/-- The static variables, and the memory at the buffer.  `string_ptr` is counted from its start. -/
structure Printer where
  print_char : PrintChar
  string_ptr : ℕ
  ksnprinf_len : ℕ
  ksnprintf_max_len : ℕ
  buff : ℕ → Char

abbrev Run := StateT Printer (Touching Region)

def access (region : Region) (off : ℕ) : Run Unit := StateT.lift (touch region off 1)

/-- The character that ends a string. -/
def NUL : Char := '\x00'

/-! ### Characters -/

/-- `*string_ptr++ = c` -/
def putChar (ch : Char) : Run Unit := do
  access .buff (← get).string_ptr
  modify fun s => { s with
    buff := Function.update s.buff s.string_ptr ch, string_ptr := s.string_ptr + 1 }

def string_print_char (ch : Char) : Run Unit := putChar ch

def string_print_n_char (ch : Char) : Run Unit := do
  let s ← get
  if s.ksnprinf_len < s.ksnprintf_max_len then
    putChar ch
    modify fun s => { s with ksnprinf_len := s.ksnprinf_len + 1 }
  else return ()

def print_char (ch : Char) : Run Unit := do
  match (← get).print_char with
  | .string_print_char => string_print_char ch
  | .string_print_n_char => string_print_n_char ch
  | .other => return ()

def one_char (c : Char) : Run Unit :=
  if c = '\n' then do
    print_char '\r'
    print_char c
  else print_char c

/-- `while(*vs) one_char(*vs++)`, for a string. -/
def one_chars : Text → Run Unit
  | [] => return ()
  | c :: cs => do
    one_char c
    one_chars cs

/-! ### Conversions -/

inductive Arg where
  | num (n : ℕ)
  | str (s : Text) (nul_free : NUL ∉ s)

/-- A number of that many bits, with at least `dig` digits, or a string. -/
inductive Conversion where
  | num (bits dig radix : ℕ)
  | str
deriving DecidableEq, Repr

/-- The `switch` of `vmsg`. -/
def conversion : Char → Option Conversion
  | 'b' => some (.num 32 2 16)
  | 'w' => some (.num 32 4 16)
  | 'P' => some (.num 64 16 16)
  | 'x' => some (.num 32 8 16)
  | 'l' => some (.num 64 16 16)
  | 'L' => some (.num 64 16 16)
  | 'v' => some (.num 64 16 16)
  | 'd' => some (.num 32 0 10)
  | 'u' => some (.num 32 0 10)
  | 's' => some .str
  | _ => none

def c : Text := "0123456789abcdef".toList

/-- The loop that puts digits in front of `vs`; a number of 64 bits has no more than `fuel`. -/
def putDigits (radix : ℕ) : ℕ → ℕ → Text → Run Text
  | 0, _, vs => return vs
  | fuel + 1, num, vs => do
    access .buf vs.length
    let vs := c.getD (num % radix) NUL :: vs
    if num / radix = 0 then return vs else putDigits radix fuel (num / radix) vs

def zeros : ℕ → Run Unit
  | 0 => return ()
  | dig + 1 => do
    one_char '0'
    zeros dig

/-- `while(*vs) one_char(*vs++)`, for the digits; without a NUL the loop leaves their buffer. -/
def printDigits : Text → Run Unit
  | [] => access .buf 64
  | d :: vs => do
    access .buf vs.length
    if d = NUL then return () else
      one_char d
      printDigits vs

/-- What follows the `switch` for a number. -/
def putNum (num dig radix : ℕ) : Run Unit := do
  access .buf 0
  let vs ← putDigits radix 64 num [NUL]
  zeros (dig - (vs.length - 1))
  printDigits vs

/-- A conversion, and the arguments after it; nothing if there is no such argument. -/
def convert (d : Char) (args : List Arg) : Run (Option (List Arg)) :=
  match conversion d, args with
  | none, args => do
    one_char d
    return some args
  | some (.num bits dig radix), .num n :: args => do
    putNum (n % 2 ^ bits) dig radix
    return some args
  | some .str, .str s _ :: args => do
    one_chars s
    return some args
  | some _, _ => return none

/-- `vmsg`, from `pos` in the format on, for at most `fuel` rounds. -/
def vmsg (fmt : ℕ → Char) : ℕ → ℕ → List Arg → Run (Option Unit)
  | 0, _, _ => return none
  | fuel + 1, pos, args => do
    access .fmt pos
    if fmt pos = NUL then return some ()
    else if fmt pos ≠ '%' then
      one_char (fmt pos)
      vmsg fmt fuel (pos + 1) args
    else
      access .fmt (pos + 1)
      match ← convert (fmt (pos + 1)) args with
      | none => return none
      | some args => vmsg fmt fuel (pos + 2) args

/-- `*string_ptr = '\0'` -/
def finish : Run Unit := do
  access .buff (← get).string_ptr
  modify fun s => { s with buff := Function.update s.buff s.string_ptr NUL }

def ksprintf (fmt : ℕ → Char) (args : List Arg) (fuel : ℕ) : Run (Option Unit) := do
  let old_print_char := (← get).print_char
  modify fun s => { s with print_char := .string_print_char, string_ptr := 0 }
  match ← vmsg fmt fuel 0 args with
  | none => return none
  | some () =>
    finish
    modify fun s => { s with print_char := old_print_char }
    return some ()

def ksnprintf (num : ℕ) (fmt : ℕ → Char) (args : List Arg) (fuel : ℕ) : Run (Option Unit) := do
  let old_print_char := (← get).print_char
  modify fun s =>
    { s with
      print_char := .string_print_n_char, ksnprinf_len := 0, ksnprintf_max_len := num
      string_ptr := 0 }
  match ← vmsg fmt fuel 0 args with
  | none => return none
  | some () =>
    finish
    modify fun s => { s with
      ksnprinf_len := 0, ksnprintf_max_len := 0, print_char := old_print_char }
    return some ()

/-! ### The text of a format -/

def expand (c : Char) : Text := if c = '\n' then ['\r', '\n'] else [c]

/-- What a conversion stands for, and the arguments after it. -/
def converted (d : Char) (args : List Arg) : Text × List Arg :=
  match conversion d, args with
  | none, args => (expand d, args)
  | some (.num bits dig radix), .num n :: args =>
    let digits := Nat.toDigits radix (n % 2 ^ bits)
    (List.replicate (dig - digits.length) '0' ++ digits, args)
  | some .str, .str s _ :: args => (s.flatMap expand, args)
  | some _, args => ([], args)

/-- The text that a format and arguments stand for. -/
def formatted : Text → List Arg → Text
  | [], _ => []
  | [c], _ => if c = '%' then [] else expand c
  | c :: d :: fmt, args =>
    if c = '%' then (converted d args).1 ++ formatted fmt (converted d args).2
    else expand c ++ formatted (d :: fmt) args

/-- The argument that a conversion takes is there. -/
def Takes (d : Char) (args : List Arg) : Prop :=
  match conversion d, args with
  | none, _ => True
  | some (.num _ _ _), .num _ :: _ => True
  | some .str, .str _ _ :: _ => True
  | some _, _ => False

/-- The arguments are those that the format takes. -/
def Matches : Text → List Arg → Prop
  | c :: d :: fmt, args =>
      if c = '%' then Takes d args ∧ Matches fmt (converted d args).2 else Matches (d :: fmt) args
  | _, _ => True

/-- The format ends in a `%` that has nothing to convert. -/
def Lone : Text → Prop
  | [] => False
  | [c] => c = '%'
  | c :: d :: fmt => if c = '%' then Lone fmt else Lone (d :: fmt)

section Plain

variable {c : Char} (h : c ≠ '%')

include h

/-! A character that starts no conversion. -/

theorem formatted_plain (fmt : Text) (args : List Arg) :
    formatted (c :: fmt) args = expand c ++ formatted fmt args := by
  cases fmt with
  | nil => simp [formatted, h]
  | cons d fmt => rw [formatted, if_neg h]

theorem matches_plain (fmt : Text) (args : List Arg) :
    Matches (c :: fmt) args ↔ Matches fmt args := by
  cases fmt with
  | nil => exact Iff.rfl
  | cons d fmt => rw [Matches, if_neg h]

theorem lone_plain (fmt : Text) : Lone (c :: fmt) ↔ Lone fmt := by
  cases fmt with
  | nil => exact iff_of_false h id
  | cons d fmt => rw [Lone, if_neg h]

end Plain

/-! ### What `print_char` is handed -/

section Sink

variable {size : Region → ℕ} {N : ℕ} {At : Text → Printer → Prop} {out : Text} {s : Printer}

/-- `At` says what there is after a text.  Each character is added to it, up to `N` of them. -/
def Sink (size : Region → ℕ) (N : ℕ) (At : Text → Printer → Prop) : Prop :=
  ∀ out ch s, out.length < N → At out s →
    Leaves size (print_char ch) (fun _ t => At (out ++ [ch]) t) s

theorem one_char_leaves (hsink : Sink size N At) {c : Char} (hN : (out ++ expand c).length ≤ N)
    (hs : At out s) :
    Leaves size (one_char c) (fun _ t => At (out ++ expand c) t) s := by
  unfold one_char expand at *
  split
  · rename_i h
    rw [if_pos h, List.length_append] at hN
    change out.length + 2 ≤ N at hN
    refine (hsink out '\r' s (by omega) hs).bind fun _ t ht => ?_
    have hlen : (out ++ ['\r']).length < N := by
      rw [List.length_append]
      change out.length + 1 < N
      omega
    rw [h]
    simpa using hsink _ '\n' t hlen ht
  · rename_i h
    rw [if_neg h, List.length_append] at hN
    exact hsink out c s hN hs

theorem one_chars_leaves (hsink : Sink size N At) {cs : Text}
    (hN : (out ++ cs.flatMap expand).length ≤ N) (hs : At out s) :
    Leaves size (one_chars cs) (fun _ t => At (out ++ cs.flatMap expand) t) s := by
  induction cs generalizing out s with
  | nil => exact Leaves.pure (by rwa [List.flatMap_nil, List.append_nil])
  | cons c cs ih =>
      rw [List.flatMap_cons, ← List.append_assoc] at hN ⊢
      have hfirst : (out ++ expand c).length ≤ N := by
        rw [List.length_append] at hN
        omega
      exact (one_char_leaves hsink hfirst hs).bind fun _ t ht => ih hN ht

theorem zeros_leaves (hsink : Sink size N At) {n : ℕ}
    (hN : (out ++ List.replicate n '0').length ≤ N) (hs : At out s) :
    Leaves size (zeros n) (fun _ t => At (out ++ List.replicate n '0') t) s := by
  induction n generalizing out s with
  | zero => exact Leaves.pure (by rwa [List.replicate_zero, List.append_nil])
  | succ n ih =>
      rw [List.replicate_succ, ← List.singleton_append, ← List.append_assoc] at hN ⊢
      have hfirst : (out ++ expand '0').length ≤ N := by
        rw [List.length_append] at hN
        exact le_trans (Nat.le_add_right _ _) hN
      exact (one_char_leaves hsink hfirst hs).bind fun _ t ht => ih hN ht

/-! ### Numbers -/

theorem digit_eq {k : ℕ} (h : k < 16) : c.getD k NUL = Nat.digitChar k := by
  have hall : ∀ k < 16, c.getD k NUL = Nat.digitChar k := by decide
  exact hall k h

theorem digit_plain {k : ℕ} (h : k < 16) : Nat.digitChar k ≠ NUL ∧ Nat.digitChar k ≠ '\n' := by
  have hall : ∀ k < 16, Nat.digitChar k ≠ NUL ∧ Nat.digitChar k ≠ '\n' := by decide
  exact hall k h

theorem putDigits_leaves {radix : ℕ} (hr : 1 < radix ∧ radix ≤ 16) (hbuf : size .buf = 64)
    {fuel num : ℕ} {vs : Text}
    (hfuel : (Nat.toDigits radix num).length ≤ fuel)
    (hroom : (Nat.toDigits radix num).length + vs.length ≤ 64) :
    Leaves size (putDigits radix fuel num vs) (fun r t => r = Nat.toDigits radix num ++ vs ∧
    t = s) s := by
  induction fuel generalizing num vs with
  | zero => exact absurd hfuel (Nat.not_le.mpr Nat.length_toDigits_pos)
  | succ fuel ih =>
      have hdigit : c.getD (num % radix) NUL = Nat.digitChar (num % radix) :=
        digit_eq ((Nat.mod_lt _ (by omega)).trans_le hr.2)
      have hpos := @Nat.length_toDigits_pos radix num
      refine Leaves.touch_bind (fun _ => by omega) ?_
      rw [Nat.toDigits_eq_if hr.1] at hfuel hroom ⊢
      by_cases hlt : num < radix
      · rw [if_pos hlt] at hroom ⊢
        have hdiv : num / radix = 0 := Nat.div_eq_of_lt hlt
        refine Leaves.ite (fun _ => Leaves.pure ⟨?_, rfl⟩) fun h => absurd hdiv h
        rw [hdigit, Nat.mod_eq_of_lt hlt]
        rfl
      · rw [if_neg hlt, List.length_append] at hfuel hroom
        rw [if_neg hlt, List.append_assoc]
        have hdiv : num / radix ≠ 0 := (Nat.div_pos (Nat.not_lt.mp hlt) (by omega)).ne'
        refine Leaves.ite (fun h => absurd h hdiv) fun _ => ?_
        rw [hdigit]
        refine ih (by simpa using hfuel) ?_
        simp only [List.length_cons, List.length_nil] at hroom ⊢
        omega

theorem printDigits_leaves (hsink : Sink size N At) (hbuf : size .buf = 64) {ds : Text}
    (hlen : ds.length < 64)
    (hds : ∀ d ∈ ds, d ≠ NUL ∧ d ≠ '\n') (hN : (out ++ ds).length ≤ N) (hs : At out s) :
    Leaves size (printDigits (ds ++ [NUL])) (fun _ t => At (out ++ ds) t) s := by
  induction ds generalizing out s with
  | nil =>
      refine Leaves.touch_bind (fun _ => ?_) (Leaves.ite (fun _ => Leaves.pure ?_) fun h =>
        absurd rfl h)
      · rw [hbuf]
        decide
      · rwa [List.append_nil]
  | cons d ds ih =>
      obtain ⟨hd, hds⟩ := List.forall_mem_cons.mp hds
      have heq : out ++ d :: ds = out ++ expand d ++ ds := by
        rw [expand, if_neg hd.2, List.append_assoc, List.singleton_append]
      rw [heq] at hN ⊢
      rw [List.length_cons] at hlen
      refine Leaves.touch_bind (fun _ => ?_) (Leaves.ite (fun h => absurd h hd.1) fun _ => ?_)
      · change (ds ++ [NUL]).length + 1 ≤ size .buf
        rw [hbuf, List.length_append, List.length_singleton]
        omega
      · have hfirst : (out ++ expand d).length ≤ N := by
          rw [List.length_append] at hN
          omega
        exact (one_char_leaves hsink hfirst hs).bind fun _ t ht => ih (by omega) hds hN ht

theorem mem_toDigits {radix : ℕ} (hr : 1 < radix ∧ radix ≤ 16) {n : ℕ} {d : Char}
    (h : d ∈ Nat.toDigits radix n) :
    ∃ k < 16, d = Nat.digitChar k := by
  induction n using Nat.strongRecOn with
  | ind n ih =>
      rw [Nat.toDigits_eq_if hr.1] at h
      split at h
      · rename_i hlt
        exact ⟨n, hlt.trans_le hr.2, List.mem_singleton.mp h⟩
      · rename_i hge
        rcases List.mem_append.mp h with h | h
        · exact ih (n / radix) (Nat.div_lt_self (by omega) hr.1) h
        · exact ⟨n % radix, (Nat.mod_lt _ (by omega)).trans_le hr.2, List.mem_singleton.mp h⟩

/-- A number of 64 bits has up to 64 digits. -/
theorem length_toDigits {radix n : ℕ} (hr : 10 ≤ radix) (hn : n < 2 ^ 64) :
    (Nat.toDigits radix n).length ≤ 20 := by
  rw [Nat.length_toDigits_le_iff (by omega) (by decide)]
  calc n < 10 ^ 20 := hn.trans (by decide)
    _ ≤ radix ^ 20 := Nat.pow_le_pow_left hr 20

theorem putNum_leaves (hsink : Sink size N At) (hbuf : size .buf = 64) {num dig radix : ℕ}
    (hr : 10 ≤ radix ∧ radix ≤ 16) (hnum : num < 2 ^ 64)
    (hN : (out ++ (List.replicate (dig - (Nat.toDigits radix num).length) '0' ++
      Nat.toDigits radix num)).length ≤ N)
    (hs : At out s) : Leaves size (putNum num dig radix) (fun _ t =>
      At (out ++ (List.replicate (dig - (Nat.toDigits radix num).length) '0' ++
        Nat.toDigits radix num)) t) s := by
  have hlen := length_toDigits hr.1 hnum
  have hr' : 1 < radix ∧ radix ≤ 16 := ⟨by omega, hr.2⟩
  rw [← List.append_assoc] at hN ⊢
  refine Leaves.touch_bind (fun _ => by rw [hbuf]; decide) ?_
  refine (putDigits_leaves hr' hbuf (by omega) (by rw [List.length_singleton]; omega)).bind ?_
  rintro _ _ ⟨rfl, rfl⟩
  rw [List.length_append, List.length_singleton, Nat.add_sub_cancel]
  have hfirst : (out ++ List.replicate (dig - (Nat.toDigits radix num).length) '0').length ≤ N := by
    rw [List.length_append] at hN
    omega
  refine (zeros_leaves hsink hfirst hs).bind fun _ t ht =>
    printDigits_leaves hsink hbuf (by omega) (fun d hd => ?_) hN ht
  obtain ⟨k, hk, rfl⟩ := mem_toDigits hr' hd
  exact digit_plain hk

/-! ### The walk over the format -/

theorem conversion_num {d : Char} {bits dig radix : ℕ}
    (h : conversion d = some (.num bits dig radix)) :
    bits ≤ 64 ∧ 10 ≤ radix ∧ radix ≤ 16 := by
  unfold conversion at h
  split at h <;> cases h <;> decide

theorem Takes.cases {d : Char} {args : List Arg} (h : Takes d args) : conversion d = none ∨
    (∃ bits dig radix n rest, conversion d = some (.num bits dig radix) ∧ args = .num n :: rest) ∨
      ∃ t ht rest, conversion d = some .str ∧ args = .str t ht :: rest := by
  unfold Takes at h
  split at h
  case h_1 hconv => exact .inl hconv
  case h_2 hconv => exact .inr (.inl ⟨_, _, _, _, _, hconv, rfl⟩)
  case h_3 hconv => exact .inr (.inr ⟨_, _, _, hconv, rfl⟩)
  case h_4 => exact absurd h id

theorem convert_leaves (hsink : Sink size N At) (hbuf : size .buf = 64) {d : Char} {args : List Arg}
    (h : Takes d args) (hN : (out ++ (converted d args).1).length ≤ N) (hs : At out s) :
    Leaves size (convert d args) (fun r t => r = some (converted d args).2 ∧
    At (out ++ (converted d args).1) t) s := by
  rcases h.cases with hconv | ⟨bits, dig, radix, n, rest, hconv, rfl⟩ | ⟨t, ht, rest, hconv, rfl⟩
  · simp only [converted, convert, hconv] at hN ⊢
    exact (one_char_leaves hsink hN hs).bind fun _ t ht => Leaves.pure ⟨rfl, ht⟩
  · simp only [converted, convert, hconv] at hN ⊢
    obtain ⟨hbits, hr⟩ := conversion_num hconv
    have hlt : n % 2 ^ bits < 2 ^ 64 :=
      (Nat.mod_lt _ (Nat.two_pow_pos bits)).trans_le (Nat.pow_le_pow_right (by decide) hbits)
    exact (putNum_leaves hsink hbuf hr hlt hN hs).bind fun _ t ht => Leaves.pure ⟨rfl, ht⟩
  · simp only [converted, convert, hconv] at hN ⊢
    exact (one_chars_leaves hsink hN hs).bind fun _ t ht => Leaves.pure ⟨rfl, ht⟩

/-- From some place in a format on: whatever `print_char` is, it is handed the text of the rest. -/
theorem vmsg_leaves (hsink : Sink size N At) (hbuf : size .buf = 64) {mem : ℕ → Char} :
    ∀ {fuel pos : ℕ} {fmt : Text} {args : List Arg} {out : Text} {s : Printer},
      Holds mem pos (fmt ++ [NUL]) → NUL ∉ fmt →
      pos + fmt.length + 1 ≤ size .fmt → ¬ Lone fmt → Matches fmt args →
      (out ++ formatted fmt args).length ≤ N → At out s →
      Leaves size (vmsg mem fuel pos args)
        (fun r t => (fmt.length < fuel → r = some ()) ∧
        (r = some () → At (out ++ formatted fmt args) t)) s := by
  intro fuel
  induction fuel with
  | zero => exact fun _ _ _ _ _ _ _ =>
      Leaves.pure ⟨fun h => absurd h (Nat.not_lt_zero _), fun h =>
        absurd h.symm (Option.some_ne_none _)⟩
  | succ fuel ih =>
      intro pos fmt args out s hmem hnul hsize hlone hmatch hN hs
      refine Leaves.touch_bind (fun _ => by omega) ?_
      cases fmt with
      | nil =>
          have hend : mem pos = NUL := (holds_cons.mp hmem).1
          refine Leaves.ite (fun _ => Leaves.pure ⟨fun _ => rfl, fun _ => ?_⟩) fun h =>
            absurd hend h
          rwa [formatted, List.append_nil]
      | cons c fmt =>
          obtain ⟨hc, hrest⟩ := holds_cons.mp hmem
          rw [List.mem_cons, not_or] at hnul
          rw [List.length_cons] at hsize
          refine Leaves.ite (fun h => absurd (hc.symm.trans h).symm hnul.1) fun _ => ?_
          refine Leaves.ite (fun h => ?_) fun h => ?_
          · rw [hc, formatted_plain (hc ▸ h)] at *
            rw [lone_plain h] at hlone
            rw [matches_plain h] at hmatch
            rw [← List.append_assoc] at hN ⊢
            have hfirst : (out ++ expand c).length ≤ N := by
              rw [List.length_append] at hN
              omega
            refine (one_char_leaves hsink hfirst hs).bind fun _ t ht => ?_
            refine (ih hrest hnul.2 (by omega) hlone hmatch hN ht).mono fun r u hu =>
              ⟨fun hlen => hu.1 ?_, hu.2⟩
            rw [List.length_cons] at hlen
            omega
          · obtain rfl : c = '%' := hc ▸ not_not.mp h
            cases fmt with
            | nil => exact absurd rfl hlone
            | cons d fmt =>
                rw [List.length_cons] at hsize
                rw [List.mem_cons, not_or] at hnul
                obtain ⟨hd, hrest⟩ := holds_cons.mp hrest
                rw [Matches, if_pos rfl] at hmatch
                rw [Lone, if_pos rfl] at hlone
                rw [formatted, if_pos rfl, ← List.append_assoc] at hN ⊢
                have hfirst : (out ++ (converted d args).1).length ≤ N := by
                  rw [List.length_append] at hN
                  omega
                refine Leaves.touch_bind (fun _ => by omega) ?_
                rw [hd]
                refine (convert_leaves hsink hbuf hmatch.1 hfirst hs).bind ?_
                rintro _ t ⟨rfl, ht⟩
                refine (ih hrest hnul.2.2 (by omega) hlone hmatch.2 hN ht).mono fun r u hu =>
                  ⟨fun hlen => hu.1 ?_, hu.2⟩
                simp only [List.length_cons] at hlen
                omega

end Sink

/-! ### Formats that are read behind their end -/

section Past

variable {size : Region → ℕ} {s : Printer}

/-- If it comes back, then not without an access outside. -/
def Past (size : Region → ℕ) (m : Run (Option Unit)) (s : Printer) : Prop :=
  (m.run s).result.1 = some () → ¬ Safe size (m.run s)

theorem Past.bind {α : Type} {m : Run α} {f : α → Run (Option Unit)}
    (h : ∀ a t, Past size (f a) t) : Past size (m >>= f) s :=
  fun hres hsafe => h _ _ hres ((safe_bind_iff (m.run s) fun p => (f p.1).run p.2).mp hsafe).2

theorem Past.ite {c : Prop} [Decidable c] {m m' : Run (Option Unit)} (hm : c → Past size m s)
    (hm' : ¬ c → Past size m' s) :
    Past size (if c then m else m') s := by
  split
  case isTrue h => exact hm h
  case isFalse h => exact hm' h

theorem past_none : Past size (pure none) s := fun h => absurd h.symm (Option.some_ne_none _)

theorem Past.outside {mem : ℕ → Char} {fuel pos : ℕ} {args : List Arg} (h : size .fmt ≤ pos) :
    Past size (vmsg mem fuel pos args) s := by
  cases fuel with
  | zero => exact past_none
  | succ fuel =>
      intro _ hsafe
      have htouch : Safe size (touch Region.fmt pos 1) :=
        fun t ht => hsafe t (List.mem_append_left _ ht)
      have hin := (safe_touch_iff Region.fmt pos 1).mp htouch (by decide)
      omega

/-- A format that ends in a single `%` is read behind its end. -/
theorem vmsg_past {mem : ℕ → Char} {fuel pos : ℕ} {fmt : Text} {args : List Arg}
    (hmem : Holds mem pos (fmt ++ [NUL]))
    (hnul : NUL ∉ fmt) (hsize : size .fmt = pos + fmt.length + 1) (hlone : Lone fmt) :
    Past size (vmsg mem fuel pos args) s := by
  induction fuel generalizing pos fmt args s with
  | zero => exact past_none
  | succ fuel ih =>
      cases fmt with
      | nil => exact absurd hlone id
      | cons c fmt =>
          obtain ⟨hc, hrest⟩ := holds_cons.mp hmem
          rw [List.mem_cons, not_or] at hnul
          rw [List.length_cons] at hsize
          refine .bind fun _ t => .ite (fun h => absurd (hc.symm.trans h).symm hnul.1) fun _ =>
            .ite (fun h => ?_) fun h => ?_
          · rw [lone_plain (hc ▸ h)] at hlone
            exact .bind fun _ u => ih hrest hnul.2 (by omega) hlone
          · obtain rfl : c = '%' := hc ▸ not_not.mp h
            refine .bind fun _ u => .bind fun r v => ?_
            cases r with
            | none => exact past_none
            | some args =>
                cases fmt with
                | nil => exact .outside (by rw [hsize]; exact Nat.le_refl _)
                | cons d fmt =>
                    rw [List.length_cons] at hsize
                    rw [List.mem_cons, not_or] at hnul
                    rw [Lone, if_pos rfl] at hlone
                    exact ih (holds_cons.mp hrest).2 hnul.2.2 (by omega) hlone

theorem Past.bind_of {α : Type} {m : Run α} {f : α → Run (Option Unit)} {Q : α → Printer → Prop}
    (hm : Leaves size m Q s) (h : ∀ a t, Q a t → Past size (f a) t) : Past size (m >>= f) s :=
  fun hres hsafe => h _ _ hm.final hres
    ((safe_bind_iff (m.run s) fun p => (f p.1).run p.2).mp hsafe).2

theorem Past.get_bind {f : Printer → Run (Option Unit)} (h : Past size (f s) s) :
    Past size (get >>= f) s :=
  .bind_of (Q := fun a t => a = s ∧ t = s) ⟨safe_pure (s, s), rfl, rfl⟩ fun _ _ ht =>
    ht.1 ▸ ht.2 ▸ h

theorem Past.modify_bind {g : Printer → Printer} {f : Unit → Run (Option Unit)}
    (h : Past size (f ()) (g s)) :
    Past size (modify g >>= f) s :=
  .bind_of (Q := fun _ t => t = g s) (Leaves.modify rfl) fun _ _ ht => ht ▸ h

/-- Nothing follows what does not come back. -/
theorem Past.then {m : Run (Option Unit)} {f : Option Unit → Run (Option Unit)} (hm : Past size m s)
    (h : ∀ t, Past size (f none) t) : Past size (m >>= f) s := by
  intro hres hsafe
  obtain ⟨hfirst, hrest⟩ := (safe_bind_iff (m.run s) fun p => (f p.1).run p.2).mp hsafe
  change ((f (m.run s).result.1).run (m.run s).result.2).result.1 = some () at hres
  cases hr : (m.run s).result.1 with
  | none =>
      rw [hr] at hres hrest
      exact h _ hres hrest
  | some u => exact hm hr hfirst

end Past

/-! ### The buffers -/

/-- What `string_print_char` leaves. -/
structure Stored (buff : ℕ → Char) (out : Text) (s : Printer) : Prop where
  print_char : s.print_char = .string_print_char
  string_ptr : s.string_ptr = out.length
  buff : s.buff = write 0 out buff

/-- What `string_print_n_char` leaves: the first `num` characters. -/
structure Cut (num : ℕ) (buff : ℕ → Char) (out : Text) (s : Printer) : Prop where
  print_char : s.print_char = .string_print_n_char
  max_len : s.ksnprintf_max_len = num
  len : s.ksnprinf_len = (out.take num).length
  string_ptr : s.string_ptr = (out.take num).length
  buff : s.buff = write 0 (out.take num) buff

section Buffers

variable {size : Region → ℕ} {buff : ℕ → Char} {N num : ℕ}

theorem putChar_leaves {out : Text} {ch : Char} {s : Printer} {Q : Unit → Printer → Prop}
    (hptr : s.string_ptr = out.length) (hbuff : s.buff = write 0 out buff)
    (hin : out.length < size .buff)
    (hQ : Q () { s with buff := write 0 (out ++ [ch]) buff, string_ptr := out.length + 1 }) :
    Leaves size (putChar ch) Q s := by
  refine Leaves.get_bind (Leaves.touch_bind (fun _ => by omega) (Leaves.modify ?_))
  have hupdate := update_write 0 out ch buff
  rw [Nat.zero_add] at hupdate
  rwa [hbuff, hptr, hupdate]

theorem sink_stored (hN : N ≤ size .buff) : Sink size N (Stored buff) := by
  intro out ch s hlen hs
  refine Leaves.get_bind ?_
  rw [hs.print_char]
  exact putChar_leaves hs.string_ptr hs.buff (by omega) ⟨hs.print_char, by simp, rfl⟩

theorem sink_cut (hsize : size .buff = num) : Sink size N (Cut num buff) := by
  intro out ch s _ hs
  refine Leaves.get_bind ?_
  rw [hs.print_char]
  have hlen : (out.take num).length = min num out.length := List.length_take
  refine Leaves.get_bind (Leaves.ite (fun h => ?_) fun h => Leaves.pure ?_)
  · rw [hs.len, hs.max_len, hlen] at h
    have htake : out.take num = out := List.take_of_length_le (by omega)
    have htake' : (out ++ [ch]).take num = out ++ [ch] :=
      List.take_of_length_le (by rw [List.length_append, List.length_singleton]; omega)
    have hptr := hs.string_ptr
    have hlen := hs.len
    have hbuff := hs.buff
    rw [htake] at hptr hlen hbuff
    refine (putChar_leaves (Q := fun _ t =>
      t = { s with buff := write 0 (out ++ [ch]) buff, string_ptr := out.length + 1 })
      hptr hbuff (by omega) rfl).bind fun _ t ht => Leaves.modify ?_
    subst ht
    refine ⟨hs.print_char, hs.max_len, ?_, ?_, ?_⟩
    · rw [htake', List.length_append, List.length_singleton, ← hlen]
    · rw [htake', List.length_append, List.length_singleton]
    · rw [htake']
  · rw [hs.len, hs.max_len, hlen] at h
    have htake : (out ++ [ch]).take num = out.take num := List.take_append_of_le_length (by omega)
    exact ⟨hs.print_char,
      hs.max_len, by rw [htake, hs.len], by rw [htake, hs.string_ptr], by rw [htake, hs.buff]⟩

end Buffers

/-! ### Formats without a NUL -/

theorem expand_nul_free {c : Char} (h : c ≠ NUL) : NUL ∉ expand c := by
  unfold expand
  split
  · decide
  · exact fun hmem => h (List.mem_singleton.mp hmem).symm

theorem converted_nul_free {d : Char} {args : List Arg} (hd : d ≠ NUL) (h : Takes d args) :
    NUL ∉ (converted d args).1 := by
  rcases h.cases with hconv | ⟨bits, dig, radix, n, rest, hconv, rfl⟩ | ⟨t, ht, rest, hconv, rfl⟩
  · simp only [converted, hconv]
    exact expand_nul_free hd
  · simp only [converted, hconv]
    rw [List.mem_append, not_or]
    refine ⟨fun h => absurd (List.mem_replicate.mp h).2 (by decide), fun h => ?_⟩
    obtain ⟨-, hr⟩ := conversion_num hconv
    obtain ⟨k, hk, hdigit⟩ := mem_toDigits ⟨by omega, hr.2⟩ h
    exact (digit_plain hk).1 hdigit.symm
  · simp only [converted, hconv, List.mem_flatMap, not_exists, not_and]
    exact fun a ha => expand_nul_free fun hnul => ht (hnul ▸ ha)

theorem formatted_nul_free {fmt : Text} {args : List Arg} (hfmt : NUL ∉ fmt)
    (h : Matches fmt args) :
    NUL ∉ formatted fmt args := by
  induction fmt, args using formatted.induct with
  | case1 args => exact List.not_mem_nil
  | case2 args => exact List.not_mem_nil
  | case3 args c hc =>
      rw [formatted_plain hc, List.mem_append, not_or]
      exact ⟨expand_nul_free fun hnul => hfmt (hnul ▸ List.mem_cons_self), List.not_mem_nil⟩
  | case4 args d fmt ih =>
      rw [List.mem_cons, List.mem_cons, not_or, not_or] at hfmt
      rw [Matches, if_pos rfl] at h
      rw [formatted, if_pos rfl, List.mem_append, not_or]
      exact ⟨converted_nul_free (Ne.symm hfmt.2.1) h.1, ih hfmt.2.2 h.2⟩
  | case5 args c d fmt hc ih =>
      rw [List.mem_cons, not_or] at hfmt
      rw [matches_plain hc] at h
      rw [formatted_plain hc, List.mem_append, not_or]
      exact ⟨expand_nul_free (Ne.symm hfmt.1), ih hfmt.2 h⟩

/-! ### The functions -/

/-- The format and the digits in their buffers, and `num` characters of room for the text. -/
def sizes (fmt : Text) (num : ℕ) : Region → ℕ
  | .fmt => fmt.length + 1
  | .buf => 64
  | .buff => num

/-- `ksprintf` leaves a text, and comes back. -/
def Produces (mem : ℕ → Char) (args : List Arg) (s : Printer) (text : Text) : Prop :=
  ∃ fuel, ((ksprintf mem args fuel).run s).result.1 = some () ∧ NUL ∉ text ∧
    Holds ((ksprintf mem args fuel).run s).result.2.buff 0 (text ++ [NUL])

/-- `ksnprintf` comes back, no access is outside, and it leaves what `ksprintf` does, up to `num -
1` characters. -/
structure Bounded (num : ℕ) (fmt : Text) (mem : ℕ → Char) (args : List Arg) (s : Printer)
    (fuel : ℕ) : Prop where
  returns : ((ksnprintf num mem args fuel).run s).result.1 = some ()
  safe : Safe (sizes fmt num) ((ksnprintf num mem args fuel).run s)
  string : ∃ text full, Produces mem args s full ∧ NUL ∉ text ∧
    Holds ((ksnprintf num mem args fuel).run s).result.2.buff 0 (text ++ [NUL]) ∧ text <+: full ∧
      (full.length ≤ num - 1 → text = full)

section Functions

variable {fmt : Text} {mem : ℕ → Char} {args : List Arg} {s : Printer} {num : ℕ}

theorem finish_leaves {size : Region → ℕ} {buff : ℕ → Char} {out : Text}
    (hptr : s.string_ptr = out.length)
    (hbuff : s.buff = write 0 out buff) (hin : out.length < size .buff) :
    Leaves size finish (fun _ t => t.buff = write 0 (out ++ [NUL]) buff) s := by
  refine Leaves.get_bind (Leaves.touch_bind (fun _ => by omega) (Leaves.modify ?_))
  have hupdate := update_write 0 out NUL buff
  rw [Nat.zero_add] at hupdate
  rw [hbuff, hptr, hupdate]

/-- The size of the format. -/
theorem format_inside (fmt : Text) (num : ℕ) : 0 + fmt.length + 1 ≤ sizes fmt num .fmt := by
  rw [Nat.zero_add]
  exact Nat.le_refl _

theorem produces_formatted (hmem : Holds mem 0 (fmt ++ [NUL])) (hnul : NUL ∉ fmt)
    (hlone : ¬ Lone fmt) (h : Matches fmt args) :
    Produces mem args s (formatted fmt args) := by
  have hrun : Leaves (sizes fmt ((formatted fmt args).length + 1))
      (ksprintf mem args (fmt.length + 1))
      (fun r t => r = some () ∧ t.buff = write 0 (formatted fmt args ++ [NUL]) s.buff) s := by
    have hsink : Sink (sizes fmt ((formatted fmt args).length + 1)) (formatted fmt args).length
        (Stored s.buff) :=
      sink_stored (Nat.le_succ _)
    have hstart : Stored s.buff [] { s with print_char := .string_print_char, string_ptr := 0 } :=
      ⟨rfl, rfl, (write_nil 0 _).symm⟩
    refine Leaves.get_bind (Leaves.modify_bind ?_)
    refine (vmsg_leaves hsink rfl hmem hnul (format_inside fmt _) hlone h (Nat.le_refl _)
      hstart).bind ?_
    rintro r t ⟨hr, hat⟩
    obtain rfl := hr (Nat.lt_succ_self _)
    have hstored := hat rfl
    refine (finish_leaves hstored.string_ptr hstored.buff (Nat.lt_succ_self _)).bind
      fun _ u hu => ?_
    exact Leaves.modify_bind (Leaves.pure ⟨rfl, hu⟩)
  refine ⟨fmt.length + 1, hrun.final.1, formatted_nul_free hnul h, ?_⟩
  rw [hrun.final.2]
  exact holds_write _ _ _

theorem sink_sizes (fmt : Text) (num N : ℕ) (buff : ℕ → Char) :
    Sink (sizes fmt num) N (Cut num buff) := sink_cut rfl

theorem cut_start (num : ℕ) (s : Printer) : Cut num s.buff []
    { s with
      print_char := .string_print_n_char, ksnprinf_len := 0, ksnprintf_max_len := num
      string_ptr := 0 } := by
  have htake : ([] : Text).take num = [] := List.take_nil
  exact ⟨rfl, rfl, by rw [htake]; rfl, by rw [htake]; rfl, by rw [htake, write_nil]⟩

/-- A text with room for its end. -/
theorem ksnprintf_leaves (hmem : Holds mem 0 (fmt ++ [NUL])) (hnul : NUL ∉ fmt) (hlone : ¬ Lone fmt)
    (h : Matches fmt args) (hlen : (formatted fmt args).length < num) :
    Leaves (sizes fmt num) (ksnprintf num mem args (fmt.length + 1))
      (fun r t => r = some () ∧ t.buff = write 0 (formatted fmt args ++ [NUL]) s.buff) s := by
  refine Leaves.get_bind (Leaves.modify_bind ?_)
  refine (vmsg_leaves (sink_sizes fmt num _ _) rfl hmem hnul (format_inside fmt num) hlone h
    (Nat.le_refl _) (cut_start num s)).bind ?_
  rintro r t ⟨hr, hat⟩
  obtain rfl := hr (Nat.lt_succ_self _)
  have hcut := hat rfl
  have htake : (formatted fmt args).take num = formatted fmt args := List.take_of_length_le hlen.le
  have hptr := hcut.string_ptr
  have hbuff := hcut.buff
  rw [List.nil_append, htake] at hptr hbuff
  refine (finish_leaves hptr hbuff hlen).bind fun _ u hu => ?_
  exact Leaves.modify_bind (Leaves.pure ⟨rfl, hu⟩)

/-- A text that leaves no room for its end. -/
theorem ksnprintf_full (hmem : Holds mem 0 (fmt ++ [NUL])) (hnul : NUL ∉ fmt) (hlone : ¬ Lone fmt)
    (h : Matches fmt args)
    (hlen : num ≤ (formatted fmt args).length) (fuel : ℕ) :
      Past (sizes fmt num) (ksnprintf num mem args fuel) s := by
  refine .get_bind (.modify_bind
    (.bind_of (vmsg_leaves (sink_sizes fmt num _ _) rfl hmem hnul (format_inside fmt num) hlone h
    (Nat.le_refl _) (cut_start num s)) ?_))
  rintro r t ⟨-, hat⟩
  cases r with
  | none => exact past_none
  | some u =>
      have hptr := (hat rfl).string_ptr
      rw [List.nil_append, List.length_take, Nat.min_eq_left hlen] at hptr
      intro _ hsafe
      have hend : (⟨.buff, t.string_ptr, 1⟩ : Touch Region).Inside (sizes fmt num) :=
        hsafe _ List.mem_cons_self
      rw [hptr] at hend
      exact absurd (hend Nat.one_ne_zero) (Nat.not_succ_le_self num)

theorem ksnprintf_lone (hmem : Holds mem 0 (fmt ++ [NUL])) (hnul : NUL ∉ fmt) (hlone : Lone fmt)
    (fuel : ℕ) :
    Past (sizes fmt num) (ksnprintf num mem args fuel) s := by
  have hsize : sizes fmt num .fmt = 0 + fmt.length + 1 := by rw [Nat.zero_add]; rfl
  exact .get_bind (.modify_bind (.then (vmsg_past hmem hnul hsize hlone) fun _ => past_none))

/-- **Main.**  For every format and its arguments: `ksnprintf` stays inside and leaves what it
should exactly if the format does not end in a single `%`, and the text is shorter than the
buffer. -/
theorem ksnprintf_bounded_iff {fmt : Text} {mem : ℕ → Char} (hmem : Holds mem 0 (fmt ++ [NUL]))
    (hnul : NUL ∉ fmt) {args : List Arg} (h : Matches fmt args) (num : ℕ) (s : Printer) :
    (∃ fuel, Bounded num fmt mem args s fuel) ↔ ¬ Lone fmt ∧ (formatted fmt args).length < num := by
  constructor
  · rintro ⟨fuel, hreturns, hsafe, -⟩
    have hlone : ¬ Lone fmt := fun hlone => ksnprintf_lone hmem hnul hlone fuel hreturns hsafe
    exact ⟨hlone, not_le.mp fun hlen => ksnprintf_full hmem hnul hlone h hlen fuel hreturns hsafe⟩
  · rintro ⟨hlone, hlen⟩
    have hrun := ksnprintf_leaves (s := s) hmem hnul hlone h hlen
    have hfree := formatted_nul_free hnul h
    refine ⟨fmt.length + 1, hrun.final.1, hrun.safe, formatted fmt args, formatted fmt args,
      produces_formatted hmem hnul hlone h, hfree, ?_, List.prefix_refl _, fun _ => rfl⟩
    rw [hrun.final.2]
    exact holds_write _ _ _

end Functions

def startPrinter : Printer := ⟨.other, 0, 0, 0, fun _ => NUL⟩

/-- `ksnprintf(buff, 5, "a%d\n", 7)`, which is just short enough. -/
theorem ksnprintf_bounded_iff_fits :
    ∃ fuel, Bounded 5 ['a', '%', 'd', '\n'] (write 0 ['a', '%', 'd', '\n', NUL] fun _ => 'x')
      [.num 7] startPrinter fuel := by
  refine (ksnprintf_bounded_iff (holds_write _ _ _) (by decide) ?_ 5 startPrinter).mpr ⟨?_, ?_⟩
  · simp [Matches, Takes, conversion]
  · simp [Lone]
  · simp [formatted, converted, conversion, expand, Nat.toDigits_of_lt_base]

/-- `ksnprintf(buff, 3, "abc")`, whose end is written behind the buffer. -/
theorem ksnprintf_three :
    ¬ ∃ fuel, Bounded 3 ['a', 'b', 'c'] (write 0 ['a', 'b', 'c', NUL] fun _ => 'x') []
      startPrinter fuel := by
  rintro ⟨fuel, hreturns, hsafe, -⟩
  have hmem : Holds (write 0 ['a', 'b', 'c', NUL] fun _ => 'x') 0 (['a', 'b', 'c'] ++ [NUL]) :=
    holds_write 0 _ _
  have hlone : ¬ Lone ['a', 'b', 'c'] := by simp [Lone]
  have hmatch : Matches ['a', 'b', 'c'] [] := by simp [Matches]
  exact ksnprintf_full hmem (by decide) hlone hmatch (by decide) fuel hreturns hsafe

end Startup.Kprintf
