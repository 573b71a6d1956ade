import RpiBsp.Startup.Bootargs

/-!
# Startup — the command line of the firmware

`cpu_tweak_cmdline` looks through the command line that the firmware gives, from the first option
on, and appends what it finds to the boot arguments.  `find_next_arg` ends a token with a zero byte
only when it is asked to.

* `find_blank`, `find_last`, `find_word` — what `find_next_arg` does with each kind of text;
* `skipLoop_spec`, `appendLoop_spec` — the two loops, against the tokens of the text;
* `tweak_spec` — the first argument is the whole text from the first option on;
* `tweak_iff` — **main**: the tokens are appended just if there is no such option, or it starts
  with `--`, or nothing comes after it;
* `tweak_block` — and then the boot arguments have them behind those they had.
-/

namespace Startup.Cmdline

open Support Bootargs

/-! ### Definitions -/

def SPACE : UInt8 := 0x20
def DASH : UInt8 := 0x2d

/-- `while (*str == ' ') ++str;`, at most so many times. -/
def skipSpaces (f : ℕ → UInt8) : ℕ → ℕ → ℕ
  | 0, p => p
  | n + 1, p => if f p = SPACE then skipSpaces f n (p + 1) else p

/-- `while ((*next != ' ') && (*next != '\0')) ++next;`, at most so many times. -/
def skipToken (f : ℕ → UInt8) : ℕ → ℕ → ℕ
  | 0, p => p
  | n + 1, p => if f p ≠ SPACE ∧ f p ≠ 0 then skipToken f n (p + 1) else p

/-- The start of the segment, where the next one starts, and the text. -/
def find_next_arg (n : ℕ) (f : ℕ → UInt8) (str : ℕ) (terminate : Bool) : ℕ × ℕ × (ℕ → UInt8) :=
  let str := skipSpaces f n str
  if f str = 0 then (str, str, f)
  else
    let next := skipToken f n str
    if f next ≠ 0 then (str, next + 1, if terminate then Function.update f next 0 else f)
    else (str, next, f)

/-- The characters of the string at a place. -/
def charsAt (f : ℕ → UInt8) : ℕ → ℕ → List UInt8
  | 0, _ => []
  | n + 1, p => if f p = 0 then [] else f p :: charsAt f n (p + 1)

theorem zero_notMem_charsAt (f : ℕ → UInt8) (n p : ℕ) : 0 ∉ charsAt f n p := by
  induction n generalizing p with
  | zero => simp [charsAt]
  | succ n ih =>
    rw [charsAt]
    split
    case isTrue => simp
    case isFalse h =>
      rw [List.mem_cons, not_or]
      exact ⟨Ne.symm h, ih (p + 1)⟩

def stringAt (f : ℕ → UInt8) (n p : ℕ) : CString := ⟨charsAt f n p, zero_notMem_charsAt f n p⟩

/-- The first loop: `next_arg` and `str` after it; `none` if it goes on after so many rounds. -/
def skipLoop (n : ℕ) (f : ℕ → UInt8) : ℕ → ℕ → Option (ℕ × ℕ)
  | 0, _ => none
  | fuel + 1, str =>
    let (next_arg, str, _) := find_next_arg n f str false
    if f next_arg = 0 then some (next_arg, str)
    else if f next_arg = DASH then some (next_arg, str)
    else if f next_arg = SPACE ∧ f (next_arg + 1) = SPACE then some (next_arg, str)
    else skipLoop n f fuel str

/-- The second loop: `next_arg` after it, the block, and the strings that were appended to it. -/
def appendLoop (n : ℕ) : ℕ → (ℕ → UInt8) → ℕ → ℕ → Bootargs → Option (ℕ × Bootargs × List CString)
  | 0, _, _, _, _ => none
  | fuel + 1, f, next_arg, str, bap =>
    if f next_arg = 0 then some (next_arg, bap, [])
    else if f next_arg = DASH ∧ f (next_arg + 1) = DASH then some (next_arg, bap, [])
    else
      let new := stringAt f n next_arg
      let bap := (bap.bootstrap_arg_adjust none (some new)).2
      let (next_arg, str, f) := find_next_arg n f str true
      (appendLoop n fuel f next_arg str bap).map fun r => (r.1, r.2.1, new :: r.2.2)

/-- `next_arg` is the static variable; `cmdline` is what `mbox_get_cmdline` gives.  No loop makes
more steps than the text has bytes, with two to spare. -/
def cpu_tweak_cmdline (next_arg : Option ℕ) (cmdline : Option CString) (bap : Bootargs) :
    Option (Option ℕ × Bootargs × List CString) :=
  if next_arg.isSome then some (next_arg, bap, [])
  else
    match cmdline with
    | none => some (none, bap, [])
    | some s => do
      let n := s.length + 2
      let f := fun i => s.bytes.getD i 0
      let (next_arg, str) ← skipLoop n f n 0
      let r ← appendLoop n n f next_arg str bap
      return (some r.1, r.2)

/-! ### The tokens of a text -/

/-- The parts between spaces that are not empty. -/
def tokens (s : List UInt8) : List (List UInt8) := (s.splitOn SPACE).filter fun t => !t.isEmpty

def isOption (t : List UInt8) : Bool := t.head? = some DASH

def isLong (t : List UInt8) : Bool := t.take 2 = [DASH, DASH]

/-- The tokens from the first option on. -/
def options (s : List UInt8) : List (List UInt8) := (tokens s).dropWhile fun t => !isOption t

/-- The tokens from the first option up to one that starts with `--`. -/
def expected (s : List UInt8) : List (List UInt8) := (options s).takeWhile fun t => !isLong t

structure Word (t : List UInt8) : Prop where
  ne_nil : t ≠ []
  space : SPACE ∉ t
  nul : 0 ∉ t

theorem tokens_cons_space (s : List UInt8) : tokens (SPACE :: s) = tokens s := by
  rw [tokens, List.splitOn_cons_eq_if_modifyHead]
  simp [tokens]

theorem tokens_word {t : List UInt8} (h : Word t) : tokens t = [t] := by
  rw [tokens, List.splitOn_eq_singleton h.space]
  simp [h.ne_nil]

theorem tokens_word_cons {t : List UInt8} (h : Word t) (s : List UInt8) :
    tokens (t ++ SPACE :: s) = t :: tokens s := by
  rw [tokens, List.splitOn_append_cons_self, List.splitOn_eq_singleton h.space]
  simp [tokens, h.ne_nil]

/-- Blanks before a text make no tokens. -/
theorem tokens_blank {sp : List UInt8} (h : ∀ c ∈ sp, c = SPACE) (s : List UInt8) :
    tokens (sp ++ s) = tokens s := by
  induction sp with
  | nil => rfl
  | cons c sp ih =>
    rw [List.forall_mem_cons] at h
    rw [h.1, List.cons_append, tokens_cons_space, ih h.2]

/-- A text is blank, or has a first word. -/
theorem blank_or_word {s : List UInt8} (h : 0 ∉ s) : (∀ c ∈ s, c = SPACE) ∨
    ∃ sp t, (∀ c ∈ sp, c = SPACE) ∧ Word t ∧
    (s = sp ++ t ∨ ∃ more, s = sp ++ (t ++ SPACE :: more)) := by
  induction s with
  | nil => exact .inl nofun
  | cons c s ih =>
    rw [List.mem_cons, not_or] at h
    by_cases hc : c = SPACE
    · rcases ih h.2 with hb | ⟨sp, t, hsp, ht, hs⟩
      · exact .inl (List.forall_mem_cons.mpr ⟨hc, hb⟩)
      · refine .inr ⟨c :: sp, t, List.forall_mem_cons.mpr ⟨hc, hsp⟩, ht, ?_⟩
        rcases hs with rfl | ⟨more, rfl⟩
        · exact .inl rfl
        · exact .inr ⟨more, rfl⟩
    · refine .inr ⟨[], ?_⟩
      by_cases hm : SPACE ∈ c :: s
      · obtain ⟨t, more, hs, ht⟩ := List.eq_append_cons_of_mem hm
        refine ⟨t, nofun, ⟨?_, ht, fun h₀ => ?_⟩, .inr ⟨more, hs⟩⟩
        · rintro rfl
          exact hc (List.cons.inj hs).1
        · have h₀ : 0 ∈ c :: s := hs ▸ List.mem_append_left _ h₀
          exact absurd h₀ (by simpa using h)
      · exact ⟨c :: s, nofun, ⟨List.cons_ne_nil _ _, hm, by simpa using h⟩, .inl rfl⟩

/-! ### The next segment -/

variable {f : ℕ → UInt8} {n p : ℕ}

theorem skipSpaces_spec {sp l : List UInt8} {c : UInt8} (h : Holds f p (sp ++ c :: l))
    (hsp : ∀ c ∈ sp, c = SPACE)
    (hc : c ≠ SPACE) (hn : sp.length < n) : skipSpaces f n p = p + sp.length := by
  induction sp generalizing p n with
  | nil =>
    obtain ⟨k, rfl⟩ := Nat.exists_eq_add_of_lt hn
    rw [skipSpaces, if_neg (by rw [(holds_cons.mp h).1]; exact hc)]
    rfl
  | cons d sp ih =>
    obtain ⟨k, rfl⟩ := Nat.exists_eq_add_of_lt hn
    rw [List.forall_mem_cons] at hsp
    obtain ⟨hd, hrest⟩ := holds_cons.mp h
    rw [skipSpaces, if_pos (hd.trans hsp.1), ih hrest hsp.2 (by simp; omega), List.length_cons]
    omega

theorem skipToken_spec {t l : List UInt8} {c : UInt8} (h : Holds f p (t ++ c :: l)) (ht : SPACE ∉ t)
    (h₀ : 0 ∉ t) (hc : c = SPACE ∨ c = 0) (hn : t.length < n) : skipToken f n p = p + t.length := by
  induction t generalizing p n with
  | nil =>
    obtain ⟨k, rfl⟩ := Nat.exists_eq_add_of_lt hn
    have hf := (holds_cons.mp h).1
    rw [skipToken, if_neg (by rw [hf]; rcases hc with rfl | rfl <;> simp)]
    rfl
  | cons d t ih =>
    obtain ⟨k, rfl⟩ := Nat.exists_eq_add_of_lt hn
    rw [List.mem_cons, not_or] at ht h₀
    obtain ⟨hd, hrest⟩ := holds_cons.mp h
    rw [skipToken, if_pos (by rw [hd]; exact ⟨Ne.symm ht.1, Ne.symm h₀.1⟩),
      ih hrest ht.2 h₀.2 (by simp; omega), List.length_cons]
    omega

/-- After blanks there is no segment. -/
theorem find_blank {sp : List UInt8} (h : Holds f p (sp ++ [0])) (hsp : ∀ c ∈ sp, c = SPACE)
    (hn : sp.length < n) (terminate : Bool) :
    find_next_arg n f p terminate = (p + sp.length, p + sp.length, f) ∧ f (p + sp.length) = 0 := by
  have hf : f (p + sp.length) = 0 := (holds_cons.mp (holds_append.mp h).2).1
  rw [find_next_arg, skipSpaces_spec h hsp (by decide) hn, if_pos hf]
  exact ⟨rfl, hf⟩

theorem Word.cons {t : List UInt8} (h : Word t) : ∃ c u, t = c :: u ∧ c ≠ SPACE ∧ c ≠ 0 := by
  cases t with
  | nil => exact absurd rfl h.ne_nil
  | cons c u =>
    have hs := h.space
    have h₀ := h.nul
    rw [List.mem_cons, not_or] at hs h₀
    exact ⟨c, u, rfl, Ne.symm hs.1, Ne.symm h₀.1⟩

/-- Where a word starts. -/
theorem skipSpaces_word {sp t l : List UInt8} (h : Holds f p (sp ++ (t ++ l)))
    (hsp : ∀ c ∈ sp, c = SPACE) (ht : Word t)
    (hn : sp.length < n) : skipSpaces f n p = p + sp.length ∧ f (p + sp.length) ≠ 0 := by
  obtain ⟨c, u, rfl, hc, h₀⟩ := ht.cons
  have hf : f (p + sp.length) = c := (holds_cons.mp (holds_append.mp h).2).1
  exact ⟨skipSpaces_spec (l := u ++ l) h hsp hc hn, by rw [hf]; exact h₀⟩

/-- The last word. -/
theorem find_last {sp t : List UInt8} (h : Holds f p (sp ++ (t ++ [0]))) (hsp : ∀ c ∈ sp, c = SPACE)
    (ht : Word t) (hn : sp.length + t.length < n) (terminate : Bool) :
    find_next_arg n f p terminate = (p + sp.length, p + sp.length + t.length, f) := by
  obtain ⟨hs, hf⟩ := skipSpaces_word (n := n) h hsp ht (by omega)
  have ht' := (holds_append.mp h).2
  have h₀ : f (p + sp.length + t.length) = 0 := (holds_cons.mp (holds_append.mp ht').2).1
  rw [find_next_arg, hs, if_neg hf, skipToken_spec ht' ht.space ht.nul (.inr rfl) (by omega)]
  simp [h₀]

/-- A word with more behind it. -/
theorem find_word {sp t more : List UInt8} (h : Holds f p (sp ++ (t ++ SPACE :: more)))
    (hsp : ∀ c ∈ sp, c = SPACE) (ht : Word t) (hn : sp.length + t.length < n) (terminate : Bool) :
    find_next_arg n f p terminate = (p + sp.length, p + sp.length + t.length + 1,
      if terminate then Function.update f (p + sp.length + t.length) 0 else f) := by
  obtain ⟨hs, hf⟩ := skipSpaces_word (n := n) h hsp ht (by omega)
  have ht' := (holds_append.mp h).2
  have hsp' : f (p + sp.length + t.length) ≠ 0 := by
    rw [(holds_cons.mp (holds_append.mp ht').2).1]
    decide
  rw [find_next_arg, hs, if_neg hf, skipToken_spec ht' ht.space ht.nul (.inl rfl) (by omega)]
  simp [hsp']

/-! ### The loops -/

theorem charsAt_spec {l : List UInt8} (h : Holds f p (l ++ [0])) (h₀ : 0 ∉ l) (hn : l.length < n) :
    charsAt f n p = l := by
  induction l generalizing p n with
  | nil =>
    obtain ⟨k, rfl⟩ := Nat.exists_eq_add_of_lt hn
    rw [charsAt, if_pos (holds_cons.mp h).1]
  | cons c l ih =>
    obtain ⟨k, rfl⟩ := Nat.exists_eq_add_of_lt hn
    rw [List.mem_cons, not_or] at h₀
    obtain ⟨hc, hrest⟩ := holds_cons.mp h
    rw [charsAt, if_neg (by rw [hc]; exact Ne.symm h₀.1), hc, ih hrest h₀.2 (by simp; omega)]

theorem isLong_iff {a : List UInt8} (h : Holds f p (a ++ [0])) (ha : a ≠ []) :
    f p = DASH ∧ f (p + 1) = DASH ↔ isLong a = true := by
  match a with
  | [c] =>
    obtain ⟨hc, hrest⟩ := holds_cons.mp h
    rw [(holds_cons.mp hrest).1]
    simp [isLong, DASH]
  | c :: d :: u =>
    obtain ⟨hc, hrest⟩ := holds_cons.mp h
    rw [hc, (holds_cons.mp hrest).1]
    simp [isLong]

theorem isOption_iff {t l : List UInt8} (h : Holds f p (t ++ l)) (ht : Word t) :
    f p = DASH ↔ isOption t = true := by
  obtain ⟨c, u, rfl, -, -⟩ := ht.cons
  rw [(holds_cons.mp h).1]
  simp [isOption]

/-- The block after strings were appended, one by one. -/
def appendAll (bap : Bootargs) (calls : List CString) : Bootargs :=
  calls.foldl (fun b a => (b.bootstrap_arg_adjust none (some a)).2) bap

/-- **The second loop.**  It appends the string it starts with and then the tokens of the rest, up
to one that starts with `--`. -/
theorem appendLoop_spec (fuel : ℕ) {q : ℕ} {a : List UInt8} (more : List UInt8) (bap : Bootargs)
    (ha : a ≠ []) (ha₀ : 0 ∉ a)
    (hq : Holds f q (a ++ [0])) (hp : Holds f p (more ++ [0])) (hm : 0 ∉ more) (hna : a.length < n)
    (hn : more.length < n) (hfuel : more.length + 1 < fuel) :
    ∃ next calls, appendLoop n fuel f q p bap = some (next, appendAll bap calls, calls) ∧
      calls.map CString.chars = (a :: tokens more).takeWhile fun t => !isLong t := by
  induction fuel generalizing f q p a more bap with
  | zero => exact absurd hfuel (Nat.not_lt_zero _)
  | succ fuel ih =>
    have hq₀ : f q ≠ 0 := by
      cases a with
      | nil => exact absurd rfl ha
      | cons c a =>
        rw [List.mem_cons, not_or] at ha₀
        rw [(holds_cons.mp hq).1]
        exact Ne.symm ha₀.1
    have hlong := isLong_iff hq ha
    rw [appendLoop, if_neg hq₀]
    by_cases hl : isLong a = true
    · rw [if_pos (hlong.mpr hl)]
      exact ⟨q, [], rfl, by simp [hl]⟩
    · rw [if_neg fun h => hl (hlong.mp h)]
      have hs : stringAt f n q = ⟨a, ha₀⟩ := CString.ext_chars (charsAt_spec hq ha₀ hna)
      rw [List.takeWhile_cons_of_pos (by simpa using hl)]
      simp only [hs]
      rcases blank_or_word hm with hb | ⟨sp, t, hsp, ht, rfl | ⟨more, rfl⟩⟩
      · obtain ⟨he, h₀⟩ := find_blank (n := n) hp hb hn true
        obtain ⟨k, rfl⟩ : ∃ k, fuel = k + 1 := ⟨fuel - 1, by omega⟩
        have htok : tokens more = [] := by
          rw [← List.append_nil more, tokens_blank hb]
          rfl
        simp only [he, appendLoop, if_pos h₀, htok]
        exact ⟨_, [⟨a, ha₀⟩], rfl, rfl⟩
      · have hlen : sp.length + t.length < n := by simpa using hn
        have hpos : 0 < t.length := List.length_pos_iff.mpr ht.ne_nil
        rw [List.append_assoc] at hp
        have hword := (holds_append.mp hp).2
        obtain ⟨next, calls, he, hc⟩ :=
          ih [] (bap.bootstrap_arg_adjust none (some ⟨a, ha₀⟩)).2 ht.ne_nil ht.nul
          hword (holds_append.mp hword).2 (by simp) (by omega) (by simp; omega)
            (by simp at hfuel ⊢; omega)
        simp only [find_last hp hsp ht hlen true, he, tokens_blank hsp, tokens_word ht]
        exact ⟨next, ⟨a, ha₀⟩ :: calls, rfl, by rw [List.map_cons, hc]; rfl⟩
      · simp only [List.length_append, List.length_cons] at hn hfuel
        have hpos : 0 < t.length := List.length_pos_iff.mpr ht.ne_nil
        rw [List.append_assoc, List.append_assoc, List.cons_append] at hp
        have hword := (holds_append.mp hp).2
        obtain ⟨ht', hmore⟩ := holds_append.mp hword
        have hmore' := (holds_cons.mp hmore).2
        rw [List.mem_append, List.mem_append, List.mem_cons, not_or, not_or, not_or] at hm
        -- the space behind the word becomes the end of a string
        have hend : Holds (Function.update f (p + sp.length + t.length) 0) (p + sp.length)
            (t ++ [0]) := by
          rw [holds_append]
          refine ⟨ht'.update_apart (.inl (Nat.le_refl _)),
            holds_cons.mpr ⟨Function.update_self _ _ _, .nil _ _⟩⟩
        have hrest : Holds (Function.update f (p + sp.length + t.length) 0)
            (p + sp.length + t.length + 1) (more ++ [0]) :=
          hmore'.update_apart (.inr (by omega))
        obtain ⟨next, calls, he, hc⟩ :=
          ih more (bap.bootstrap_arg_adjust none (some ⟨a, ha₀⟩)).2 ht.ne_nil ht.nul hend hrest
          hm.2.2.2 (by omega) (by omega) (by omega)
        simp only [find_word hp hsp ht (n := n) (by omega) true, if_true, he, tokens_blank hsp,
          tokens_word_cons ht]
        exact ⟨next, ⟨a, ha₀⟩ :: calls, rfl, by rw [List.map_cons, hc]⟩

theorem options_word {sp t : List UInt8} (hsp : ∀ c ∈ sp, c = SPACE) (ht : Word t) :
    options (sp ++ t) = if isOption t then [t] else [] := by
  rw [options, tokens_blank hsp, tokens_word ht, List.dropWhile_cons]
  cases isOption t <;> rfl

theorem options_word_cons {sp t : List UInt8} (hsp : ∀ c ∈ sp, c = SPACE) (ht : Word t)
    (more : List UInt8) :
    options (sp ++ (t ++ SPACE :: more)) = if isOption t then t :: tokens more
      else options more := by
  rw [options, tokens_blank hsp, tokens_word_cons ht, List.dropWhile_cons]
  cases isOption t <;> rfl

/-- A word does not begin with blanks. -/
theorem not_spaces {q : ℕ} {t more : List UInt8} (h : Holds f q (t ++ more)) (ht : Word t) :
    ¬ (f q = SPACE ∧ f (q + 1) = SPACE) := by
  rintro ⟨hs, -⟩
  obtain ⟨c, u, rfl, hc, -⟩ := ht.cons
  exact hc ((holds_cons.mp h).1.symm.trans hs)

/-- **The first loop.**  It stops at the end of the text, or at the first option, which it leaves as
it is. -/
theorem skipLoop_spec {fuel : ℕ} {s : List UInt8} (h : Holds f p (s ++ [0])) (h₀ : 0 ∉ s)
    (hn : s.length < n) (hfuel : s.length < fuel) :
    (∃ q str, skipLoop n f fuel p = some (q, str) ∧ f q = 0 ∧ options s = []) ∨
    (∃ q t pre, skipLoop n f fuel p = some (q, q + t.length) ∧ Holds f q (t ++ [0]) ∧ Word t ∧
      s = pre ++ t ∧
      options s = [t]) ∨
    ∃ q t more pre, skipLoop n f fuel p = some (q, q + t.length + 1) ∧
      Holds f q (t ++ SPACE :: more ++ [0]) ∧ Word t ∧
      s = pre ++ (t ++ SPACE :: more) ∧ options s = t :: tokens more := by
  induction fuel generalizing p s with
  | zero => exact absurd hfuel (Nat.not_lt_zero _)
  | succ fuel ih =>
    rcases blank_or_word h₀ with hb | ⟨sp, t, hsp, ht, rfl | ⟨more, rfl⟩⟩
    · obtain ⟨he, hz⟩ := find_blank (n := n) h hb hn false
      refine .inl ⟨p + s.length, p + s.length, ?_, hz, ?_⟩
      · simp only [skipLoop, he, if_pos hz]
      · rw [options, ← List.append_nil s, tokens_blank hb]
        rfl
    · have hlen : sp.length + t.length < n := by simpa using hn
      rw [List.append_assoc] at h
      have hword := (holds_append.mp h).2
      obtain ⟨-, hz⟩ := skipSpaces_word (n := n) h hsp ht (by omega)
      have hopt := isOption_iff hword ht
      have hspace := not_spaces hword ht
      simp only [skipLoop, find_last h hsp ht hlen false, if_neg hz, options_word hsp ht]
      by_cases ho : isOption t = true
      · simp only [if_pos (hopt.mpr ho), if_pos ho]
        exact .inr (.inl ⟨_, t, sp, rfl, hword, ht, rfl, rfl⟩)
      · simp only [if_neg fun hd => ho (hopt.mp hd), if_neg hspace, if_neg ho]
        -- there is only the end of the text to come
        have hpos : 0 < t.length := List.length_pos_iff.mpr ht.ne_nil
        obtain ⟨k, rfl⟩ : ∃ k, fuel = k + 1 := ⟨fuel - 1, by simp at hfuel; omega⟩
        obtain ⟨he, hz'⟩ :=
          find_blank (n := n) (show Holds f _ ([] ++ [0]) from (holds_append.mp hword).2)
          nofun (Nat.zero_lt_of_lt hn) false
        refine .inl ⟨p + sp.length + t.length, p + sp.length + t.length, ?_, hz', trivial⟩
        simp only [skipLoop, he]
        exact if_pos hz'
    · simp only [List.length_append, List.length_cons] at hn hfuel
      rw [List.append_assoc, List.append_assoc, List.cons_append] at h
      have hword := (holds_append.mp h).2
      obtain ⟨-, hz⟩ := skipSpaces_word (n := n) h hsp ht (by omega)
      have hopt := isOption_iff hword ht
      have hspace := not_spaces hword ht
      simp only [skipLoop, find_word h hsp ht (n := n) (by omega) false, if_neg hz,
        options_word_cons hsp ht]
      by_cases ho : isOption t = true
      · simp only [if_pos (hopt.mpr ho), if_pos ho]
        exact .inr (.inr ⟨_, t, more, sp, rfl, by rwa [List.append_assoc], ht, rfl, rfl⟩)
      · simp only [if_neg fun hd => ho (hopt.mp hd), if_neg hspace, if_neg ho]
        have hmore := (holds_cons.mp (holds_append.mp hword).2).2
        rw [List.mem_append, List.mem_append, List.mem_cons, not_or, not_or, not_or] at h₀
        rcases ih hmore h₀.2.2.2 (by omega) (by omega) with
          ⟨q, str, he, hq, hoe⟩ | ⟨q, u, pre, he, hq, hu, rfl, hoe⟩ |
          ⟨q, u, more', pre, he, hq, hu, rfl, hoe⟩
        · exact .inl ⟨q, str, he, hq, hoe⟩
        · exact .inr (.inl ⟨q, u, sp ++ (t ++ SPACE :: pre), he, hq, hu, by simp, hoe⟩)
        · exact .inr (.inr ⟨q, u, more', sp ++ (t ++ SPACE :: pre), he, hq, hu, by simp, hoe⟩)

/-! ### The arguments that are appended -/

/-- The block, and the strings that were appended. -/
def Appends (s : CString) (bap : Bootargs) (l : List (List UInt8)) : Prop :=
  ∃ next calls, cpu_tweak_cmdline none (some s) bap = some (some next, appendAll bap calls, calls) ∧
    calls.map CString.chars = l

/-- There is no option, or the first starts with `--`, or the text ends with the first. -/
def Separate (s : List UInt8) : Prop :=
  match options s with
  | [] => True
  | t :: ts => isLong t = true ∨ (ts = [] ∧ s.getLast? ≠ some SPACE)

/-- What is appended in place of the tokens: the whole text from the first option on, and the tokens
after it. -/
theorem tweak_spec (s : CString) (bap : Bootargs) :
    (options s.chars = [] ∧ Appends s bap []) ∨
    (∃ t pre, options s.chars = [t] ∧ s.chars = pre ++ t ∧ Word t ∧
      Appends s bap ([t].takeWhile fun t => !isLong t)) ∨
    ∃ t more pre, options s.chars = t :: tokens more ∧ s.chars = pre ++ (t ++ SPACE :: more) ∧
      Word t ∧
      Appends s bap (((t ++ SPACE :: more) :: tokens more).takeWhile fun t => !isLong t) := by
  have hf : Holds (fun i => s.bytes.getD i 0) 0 (s.chars ++ [0]) := by
    intro j hj
    simp only [Nat.zero_add, CString.bytes, List.getD_eq_getElem?_getD, List.getElem?_eq_getElem hj,
      Option.getD_some]
  have hlen : s.chars.length < s.length + 2 := Nat.lt_add_of_pos_right (by decide)
  rcases skipLoop_spec hf s.nul_free hlen hlen with
    ⟨q, str, he, hq, ho⟩ | ⟨q, t, pre, he, hq, ht, hs, ho⟩ | ⟨q, t, more, pre, he, hq, ht, hs, ho⟩
  · refine .inl ⟨ho, q, [], ?_, rfl⟩
    simp only [cpu_tweak_cmdline, Option.isSome_none, Bool.false_eq_true, if_false, he,
      Option.bind_eq_bind, Option.bind_some, appendLoop, if_pos hq]
    rfl
  · have hsl : s.length = pre.length + t.length := by
      rw [CString.length, hs, List.length_append]
    have hpos : 0 < t.length := List.length_pos_iff.mpr ht.ne_nil
    obtain ⟨next, calls, ha, hc⟩ :=
      appendLoop_spec (n := s.length + 2) (s.length + 2) [] bap ht.ne_nil
      ht.nul hq (holds_append.mp hq).2 (by simp) (by omega) (by simp) (by simp)
    refine .inr (.inl ⟨t, pre, ho, hs, ht, next, calls, ?_, hc⟩)
    simp only [cpu_tweak_cmdline, Option.isSome_none, Bool.false_eq_true, if_false, he,
      Option.bind_eq_bind, Option.bind_some, ha]
    rfl
  · have hsl : s.length = pre.length + (t.length + (more.length + 1)) := by
      rw [CString.length, hs, List.length_append, List.length_append, List.length_cons]
    have hpos : 0 < t.length := List.length_pos_iff.mpr ht.ne_nil
    have hz := s.nul_free
    rw [hs, List.mem_append, not_or] at hz
    have hm := hz.2
    rw [List.mem_append, List.mem_cons, not_or, not_or] at hm
    have hq' := hq
    rw [List.append_assoc, List.cons_append] at hq'
    obtain ⟨next, calls, ha, hc⟩ := appendLoop_spec (n := s.length + 2) (s.length + 2) more bap
      (List.append_ne_nil_of_left_ne_nil ht.ne_nil _) hz.2 hq
        (holds_cons.mp (holds_append.mp hq').2).2 hm.2.2
      (by simp; omega) (by omega) (by omega)
    refine .inr (.inr ⟨t, more, pre, ho, hs, ht, next, calls, ?_, hc⟩)
    simp only [cpu_tweak_cmdline, Option.isSome_none, Bool.false_eq_true, if_false, he,
      Option.bind_eq_bind, Option.bind_some, ha]
    rfl

theorem Appends.unique {s : CString} {bap : Bootargs} {l m : List (List UInt8)}
    (hl : Appends s bap l) (hm : Appends s bap m) : l = m := by
  obtain ⟨next, calls, he, rfl⟩ := hl
  obtain ⟨next', calls', he', rfl⟩ := hm
  rw [he, Option.some.injEq, Prod.mk.injEq, Prod.mk.injEq] at he'
  rw [he'.2.2]

theorem isLong_append_space {t : List UInt8} (h : Word t) (more : List UInt8) :
    isLong (t ++ SPACE :: more) = isLong t := by
  match t with
  | [] => exact absurd rfl h.ne_nil
  | [c] => simp [isLong, SPACE, DASH]
  | c :: d :: u => simp [isLong]

theorem tokens_eq_nil {s : List UInt8} (h₀ : 0 ∉ s) (h : tokens s = []) : ∀ c ∈ s, c = SPACE := by
  rcases blank_or_word h₀ with hb | ⟨sp, t, hsp, ht, rfl | ⟨more, rfl⟩⟩
  · exact hb
  · rw [tokens_blank hsp, tokens_word ht] at h
    cases h
  · rw [tokens_blank hsp, tokens_word_cons ht] at h
    cases h

/-- If only blanks come after a space, the text ends with one. -/
theorem getLast?_of_tokens {l more : List UInt8} (h₀ : 0 ∉ more) (h : tokens more = []) :
    (l ++ SPACE :: more).getLast? = some SPACE := by
  have hne : SPACE :: more ≠ [] := List.cons_ne_nil _ _
  have hlast : (SPACE :: more).getLast hne = SPACE := by
    rcases List.mem_cons.mp (List.getLast_mem hne) with he | he
    · exact he
    · exact tokens_eq_nil h₀ h _ he
  rw [List.getLast?_append, List.getLast?_eq_some_getLast hne, Option.some_or, hlast]

theorem getLast?_word {l t : List UInt8} (ht : Word t) : (l ++ t).getLast? ≠ some SPACE := by
  rw [List.getLast?_append, List.getLast?_eq_some_getLast ht.ne_nil, Option.some_or]
  intro h
  exact ht.space (Option.some.inj h ▸ List.getLast_mem ht.ne_nil)

theorem appends_of_separate {s : CString} (bap : Bootargs) (hsep : Separate s.chars) :
    Appends s bap (expected s.chars) ∧
    (expected s.chars = [] ∨ ∃ t, expected s.chars = [t] ∧ t.length ≤ s.length) := by
  rcases tweak_spec s bap with ⟨ho, h⟩ | ⟨t, pre, ho, hs, ht, h⟩ | ⟨t, more, pre, ho, hs, ht, h⟩
  · simp only [expected, ho]
    exact ⟨h, .inl rfl⟩
  · simp only [expected, ho]
    refine ⟨h, ?_⟩
    by_cases hl : isLong t = true
    · exact .inl (List.takeWhile_cons_of_neg (by simpa using hl))
    · refine .inr ⟨t, List.takeWhile_cons_of_pos (by simpa using hl), ?_⟩
      rw [CString.length, hs, List.length_append]
      exact Nat.le_add_left _ _
  · simp only [expected, ho]
    rw [Separate, ho] at hsep
    rcases hsep with hl | ⟨htok, hlast⟩
    · rw [List.takeWhile_cons_of_neg (by simpa [isLong_append_space ht] using hl)] at h
      rw [List.takeWhile_cons_of_neg (by simpa using hl)]
      exact ⟨h, .inl rfl⟩
    · have hz := s.nul_free
      rw [hs, List.mem_append, List.mem_append, List.mem_cons, not_or, not_or, not_or] at hz
      rw [hs, ← List.append_assoc] at hlast
      exact absurd (getLast?_of_tokens hz.2.2.2 htok) hlast

theorem separate_of_appends {s : CString} {bap : Bootargs} (ha : Appends s bap (expected s.chars)) :
    Separate s.chars := by
  rcases tweak_spec s bap with ⟨ho, -⟩ | ⟨t, pre, ho, hs, ht, -⟩ | ⟨t, more, pre, ho, hs, ht, h⟩
  · rw [Separate, ho]
    trivial
  · rw [Separate, ho]
    exact .inr ⟨rfl, hs ▸ getLast?_word ht⟩
  · rw [Separate, ho]
    by_contra hc
    have hl : ¬ isLong t = true := fun hl => hc (.inl hl)
    rw [expected, ho, List.takeWhile_cons_of_pos (by simpa using hl)] at ha
    rw [List.takeWhile_cons_of_pos (by simpa [isLong_append_space ht] using hl)] at h
    -- the two lists start with different strings
    have he := (List.cons.inj (ha.unique h)).1
    exact List.cons_ne_nil _ _ (List.append_right_eq_self.mp he.symm)

/-- **The tokens are appended.**  For every command line, what is appended to the boot arguments are
the tokens from the first option up to one that starts with `--`, each by itself, just if there is
no option, or the first one starts with `--`, or nothing comes after it. -/
theorem tweak_iff (s : CString) (bap : Bootargs) :
    Appends s bap (expected s.chars) ↔ Separate s.chars :=
  ⟨separate_of_appends, fun h => (appends_of_separate bap h).1⟩

/-- Then a well-formed block has the tokens behind its arguments. -/
theorem tweak_block {s : CString} {bap : Bootargs} {args envs : List CString}
    {trailing : List UInt8}
    (h : Separate s.chars) (hb : Block bap args envs trailing) (hargc : args.length < 127)
    (hfit : HEADER + (strings args ++ strings envs ++ trailing).length + s.length + 1 < SIZE_MAX) :
    ∃ next bap' calls, cpu_tweak_cmdline none (some s) bap = some (some next, bap', calls) ∧
      calls.map CString.chars = expected s.chars ∧ Block bap' (args ++ calls) envs trailing := by
  obtain ⟨⟨next, calls, he, hc⟩, hcases⟩ := appends_of_separate bap h
  refine ⟨next, _, calls, he, hc, ?_⟩
  rcases hcases with hz | ⟨t, ht, hle⟩
  · rw [hz, List.map_eq_nil_iff] at hc
    rw [hc, List.append_nil]
    exact hb
  · rw [ht, List.map_eq_singleton_iff] at hc
    obtain ⟨c, rfl, rfl⟩ := hc
    have ha := hb.arg_adjust hargc none (some c) nofun fun l hl => by
      cases hl
      have hcl : c.chars.length = c.length := rfl
      simp only [Option.toList_some, strings_append, strings_cons, strings_nil, List.append_nil,
        List.length_append, CString.length_bytes] at hfit ⊢
      omega
    exact ha.2

/-- `bcm2712 -v -D8250`. -/
def twoOptions : CString :=
  ⟨[0x62, 0x63, 0x6d, 0x32, 0x37, 0x31, 0x32, 0x20, 0x2d, 0x76, 0x20, 0x2d, 0x44, 0x38, 0x32, 0x35,
    0x30], by decide⟩

example : expected twoOptions.chars = [v.chars, d8250.chars] := by decide

/-- The first argument that is appended is `-v -D8250`. -/
theorem tweak_twoOptions :
    ¬ Appends twoOptions (packed [startup] [a1] header) (expected twoOptions.chars) := by
  intro h
  have hs := separate_of_appends h
  have ho : options twoOptions.chars = [v.chars, d8250.chars] := by decide
  rw [Separate, ho] at hs
  rcases hs with hl | ⟨hts, -⟩
  · exact absurd hl (by decide)
  · exact List.cons_ne_nil _ _ hts

end Startup.Cmdline
