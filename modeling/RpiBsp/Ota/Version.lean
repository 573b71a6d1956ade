import Mathlib.Data.Prod.Lex
import Mathlib.Order.Defs.Unbundled
import RpiBsp.Support.Text

/-!
# OTA — Versions

The versions of the boot image and the order on them, `ota_client.cpp` from `parse_version` on.  A
version is `YYYY.WW.N` or, from older releases, a number `N`; `Form` says so.  What the client reads
is more: `Reads`.

* `parse_version_eq_iff` — the versions that are read, and as what;
* `is_newer_version_iff` — one version is newer than another if both are read and their triples are
in order;
* `is_newer_iff` — **main**: only documented versions are ever newer, except where text that is none
is read as one.
-/

namespace Ota

open Support

structure Version where
  year : ℤ
  week : ℤ
  seq : ℤ
  valid : Bool
deriving DecidableEq, Repr

abbrev stoi : Text → Option ℤ := sto 32

def invalid : Version := ⟨0, 0, 0, false⟩

def parse_version (v : Text) : Version :=
  match find '.' v 0 with
  | some p1 =>
    match find '.' v (p1 + 1) with
    | none => invalid
    | some p2 =>
      -- an exception of one of the three calls ends in the handler
      match stoi (substr v 0 p1), stoi (substr v (p1 + 1) (p2 - p1 - 1)),
        stoi (v.drop (p2 + 1)) with
      | some year, some week, some seq => ⟨year, week, seq, true⟩
      | _, _, _ => invalid
  | none =>
    match stoi v with
    | some seq => ⟨0, 0, seq, true⟩
    | none => invalid

def is_newer_version (server_v local_v : Text) : Bool :=
  let sv := parse_version server_v
  let lv := parse_version local_v
  if !sv.valid || !lv.valid then false
  else if sv.year ≠ lv.year then sv.year > lv.year
  else if sv.week ≠ lv.week then sv.week > lv.week
  else sv.seq > lv.seq

/-! ### What a version says -/

/-- Year, week and number, compared in this order. -/
abbrev Triple := ℤ ×ₗ ℤ ×ₗ ℤ

def triple (year week seq : ℤ) : Triple := toLex (year, toLex (week, seq))

theorem triple_lt_triple {y w n y' w' n' : ℤ} :
    triple y w n < triple y' w' n' ↔ y < y' ∨ y = y' ∧ (w < w' ∨ w = w' ∧ n < n') := by
  rw [triple, triple, Prod.Lex.toLex_lt_toLex, Prod.Lex.toLex_lt_toLex]

/-- Decimal digits, and nothing else, whose value fits an `int`. -/
structure Digits (s : Text) (n : ℤ) : Prop where
  ne_nil : s ≠ []
  digit : ∀ c ∈ s, c.isDigit
  value : n = Nat.ofDigitChars 10 s 0
  fits : Fits 32 n

/-- **The documented versions**: `YYYY.WW.N`, and `N` for year and week 0. -/
inductive Form : Text → Triple → Prop
  | week {a b c : Text} {y w n : ℤ} (year : Digits a y) (week : Digits b w) (seq : Digits c n) :
      Form (a ++ '.' :: (b ++ '.' :: c)) (triple y w n)
  | seq {v : Text} {n : ℤ} (seq : Digits v n) : Form v (triple 0 0 n)

/-- **The versions that are read**: each of the three parts, or the whole, only has to have a number
in front. -/
inductive Reads : Text → Triple → Prop
  | week {a b c : Text} {y w n : ℤ} (ha : '.' ∉ a) (hb : '.' ∉ b) (year : Number a y ∧ Fits 32 y)
      (week : Number b w ∧ Fits 32 w) (seq : Number c n ∧ Fits 32 n) :
      Reads (a ++ '.' :: (b ++ '.' :: c)) (triple y w n)
  | seq {v : Text} {n : ℤ} (hv : '.' ∉ v) (seq : Number v n ∧ Fits 32 n) : Reads v (triple 0 0 n)

namespace Digits

variable {s : Text} {n : ℤ}

theorem number (h : Digits s n) : Number s n ∧ Fits 32 n :=
  ⟨⟨[], [], s, [], by simp, by simp, .inl ⟨.inl rfl, h.value⟩, h.ne_nil, h.digit, by simp⟩, h.fits⟩

theorem dot_notMem (h : Digits s n) : '.' ∉ s :=
  fun hmem => absurd (h.digit _ hmem) (by decide)

end Digits

theorem Form.reads {v : Text} {t : Triple} (h : Form v t) : Reads v t := by
  cases h with
  | week year week seq =>
      exact .week year.dot_notMem week.dot_notMem year.number week.number seq.number
  | seq seq => exact .seq seq.dot_notMem seq.number

/-! ### What is read -/

/-- What a call came back with, as a triple. -/
def Version.triple? (v : Version) : Option Triple :=
  if v.valid then some (triple v.year v.week v.seq) else none

theorem parse_version_plain {v : Text} (h : '.' ∉ v) :
    (parse_version v).triple? = (stoi v).map fun n => triple 0 0 n := by
  have hfind : find '.' v 0 = none := find_eq_none (by rwa [List.drop_zero])
  rw [parse_version, hfind]
  cases stoi v with
  | none => rfl
  | some n => rfl

theorem drop_past (a : Text) (d : Char) (s : Text) : (a ++ d :: s).drop (a.length + 1) = s := by
  have : a ++ d :: s = (a ++ [d]) ++ s := by simp
  rw [this, List.drop_left' (by simp)]

theorem parse_version_one_dot {a b : Text} (ha : '.' ∉ a) (hb : '.' ∉ b) :
    (parse_version (a ++ '.' :: b)).triple? = none := by
  have h1 : find '.' (a ++ '.' :: b) 0 = some a.length := by
    have := find_eq_some (b := b) ha []
    simpa using this
  have h2 : find '.' (a ++ '.' :: b) (a.length + 1) = none := find_eq_none (by rwa [drop_past])
  rw [parse_version, h1]
  dsimp only
  rw [h2]
  rfl

theorem parse_version_dots {a b c : Text} (ha : '.' ∉ a) (hb : '.' ∉ b) :
    (parse_version (a ++ '.' :: (b ++ '.' :: c))).triple? =
      (stoi a).bind fun y => (stoi b).bind fun w => (stoi c).map fun n => triple y w n := by
  have h1 : find '.' (a ++ '.' :: (b ++ '.' :: c)) 0 = some a.length := by
    have := find_eq_some (b := b ++ '.' :: c) ha []
    simpa using this
  have h2 : find '.' (a ++ '.' :: (b ++ '.' :: c)) (a.length + 1) =
      some (a.length + 1 + b.length) := by
    have := find_eq_some (b := c) hb (a ++ ['.'])
    simpa using this
  rw [parse_version, h1]
  dsimp only
  rw [h2]
  have hyear : substr (a ++ '.' :: (b ++ '.' :: c)) 0 a.length = a := by simp [substr]
  have hweek : substr (a ++ '.' :: (b ++ '.' :: c)) (a.length + 1)
      (a.length + 1 + b.length - a.length - 1) = b := by
    have hlen : a.length + 1 + b.length - a.length - 1 = b.length := by omega
    rw [substr, hlen, drop_past, List.take_left]
  have hseq : (a ++ '.' :: (b ++ '.' :: c)).drop (a.length + 1 + b.length + 1) = c := by
    rw [Nat.add_assoc, ← List.drop_drop, drop_past, drop_past]
  dsimp only
  rw [hyear, hweek, hseq]
  cases stoi a with
  | none => rfl
  | some y =>
      cases stoi b with
      | none => rfl
      | some w =>
          cases stoi c with
          | none => rfl
          | some n => rfl

/-- A text has no dot, one, or a first and a second. -/
theorem dots_cases (v : Text) : '.' ∉ v ∨ (∃ a b, v = a ++ '.' :: b ∧ '.' ∉ a ∧ '.' ∉ b) ∨
    ∃ a b c, v = a ++ '.' :: (b ++ '.' :: c) ∧ '.' ∉ a ∧ '.' ∉ b := by
  by_cases h : '.' ∈ v
  · obtain ⟨a, b, rfl, ha⟩ := List.eq_append_cons_of_mem h
    by_cases h' : '.' ∈ b
    · obtain ⟨b, c, rfl, hb⟩ := List.eq_append_cons_of_mem h'
      exact .inr (.inr ⟨a, b, c, rfl, ha, hb⟩)
    · exact .inr (.inl ⟨a, b, rfl, ha, h'⟩)
  · exact .inl h

/-- **The versions that are read.** -/
theorem parse_version_eq_iff {v : Text} {t : Triple} :
    (parse_version v).triple? = some t ↔ Reads v t := by
  constructor
  · intro h
    rcases dots_cases v with hv | ⟨a, b, rfl, ha, hb⟩ | ⟨a, b, c, rfl, ha, hb⟩
    · rw [parse_version_plain hv, Option.map_eq_some_iff] at h
      obtain ⟨n, hn, rfl⟩ := h
      exact .seq hv (sto_eq_some_iff.mp hn)
    · rw [parse_version_one_dot ha hb] at h
      exact absurd h (by simp)
    · rw [parse_version_dots ha hb] at h
      obtain ⟨y, hy, h⟩ := Option.bind_eq_some_iff.mp h
      obtain ⟨w, hw, h⟩ := Option.bind_eq_some_iff.mp h
      obtain ⟨n, hn, rfl⟩ := Option.map_eq_some_iff.mp h
      exact .week ha hb (sto_eq_some_iff.mp hy) (sto_eq_some_iff.mp hw) (sto_eq_some_iff.mp hn)
  · intro h
    cases h with
    | week ha hb year week seq =>
        rw [parse_version_dots ha hb, stoi, sto_eq_some_iff.mpr year, sto_eq_some_iff.mpr week,
          sto_eq_some_iff.mpr seq]
        rfl
    | seq hv seq =>
        rw [parse_version_plain hv, stoi, sto_eq_some_iff.mpr seq]
        rfl

/-! ### The order -/

/-- One version is newer than another if both are read and their triples are in order. -/
theorem is_newer_version_iff {s l : Text} :
    is_newer_version s l = true ↔ ∃ t u, Reads s t ∧ Reads l u ∧ u < t := by
  simp only [← parse_version_eq_iff]
  unfold is_newer_version Version.triple?
  generalize parse_version s = sv
  generalize parse_version l = lv
  obtain ⟨y, w, n, valid⟩ := sv
  obtain ⟨y', w', n', valid'⟩ := lv
  cases valid with
  | false => simp
  | true =>
      cases valid' with
      | false => simp
      | true =>
          simp only [Bool.not_true, Bool.or_self, Bool.false_eq_true, if_false, if_true,
            Option.some.injEq]
          have hlt : (∃ t u, triple y w n = t ∧ triple y' w' n' = u ∧ u < t) ↔
              triple y' w' n' < triple y w n :=
            ⟨fun ⟨_, _, ht, hu, h⟩ => ht ▸ hu ▸ h, fun h => ⟨_, _, rfl, rfl, h⟩⟩
          rw [hlt, triple_lt_triple]
          by_cases hy : y = y'
          · by_cases hw : w = w'
            · simp [hy, hw]
            · simp [hy, hw]
              omega
          · simp [hy]
            omega

theorem Reads.eq {v : Text} {t u : Triple} (h : Reads v t) (h' : Reads v u) : t = u :=
  Option.some.inj ((parse_version_eq_iff.mpr h).symm.trans (parse_version_eq_iff.mpr h'))

/-- What the documentation says of two versions: only documented ones are newer, and then by their
triples. -/
structure Documented (s l : Text) : Prop where
  form : is_newer_version s l = true → (∃ t, Form s t) ∧ ∃ u, Form l u
  order : ∀ t u, Form s t → Form l u → (is_newer_version s l = true ↔ u < t)

/-- If both texts are read, with the triple of the first above that of the second, then both are
documented versions. -/
def Strict (s l : Text) : Prop :=
  ∀ t u, Reads s t → Reads l u → u < t → (∃ t, Form s t) ∧ ∃ u, Form l u

/-- **Which version is newer**: the order is a strict one on all texts.  It is the documented one on
two texts just when they are not read as versions in this order although one of them is none. -/
theorem is_newer_iff (s l : Text) :
    (Documented s l ↔ Strict s l) ∧
      (¬ is_newer_version s s = true) ∧
      (is_newer_version s l = true → ¬ is_newer_version l s = true) ∧
      ∀ m, is_newer_version s l = true → is_newer_version l m = true →
      is_newer_version s m = true := by
  refine ⟨⟨fun h t u ht hu hlt => ?_, fun h => ⟨fun hnew => ?_, fun t u ht hu => ?_⟩⟩, ?_, ?_, ?_⟩
  · exact h.form (is_newer_version_iff.mpr ⟨t, u, ht, hu, hlt⟩)
  · obtain ⟨t, u, ht, hu, hlt⟩ := is_newer_version_iff.mp hnew
    exact h t u ht hu hlt
  · rw [is_newer_version_iff]
    constructor
    · rintro ⟨t', u', ht', hu', hlt⟩
      rwa [ht'.eq ht.reads, hu'.eq hu.reads] at hlt
    · exact fun hlt => ⟨t, u, ht.reads, hu.reads, hlt⟩
  · intro hnew
    obtain ⟨t, u, ht, hu, hlt⟩ := is_newer_version_iff.mp hnew
    exact lt_irrefl t ((ht.eq hu) ▸ hlt)
  · intro hnew hnew'
    obtain ⟨t, u, ht, hu, hlt⟩ := is_newer_version_iff.mp hnew
    obtain ⟨u', t', hu', ht', hlt'⟩ := is_newer_version_iff.mp hnew'
    rw [hu'.eq hu, ht'.eq ht] at hlt'
    exact lt_asymm hlt hlt'
  · intro m hnew hnew'
    obtain ⟨t, u, ht, hu, hlt⟩ := is_newer_version_iff.mp hnew
    obtain ⟨u', r, hu', hr, hlt'⟩ := is_newer_version_iff.mp hnew'
    rw [hu'.eq hu] at hlt'
    exact is_newer_version_iff.mpr ⟨t, r, ht, hr, hlt'.trans hlt⟩

/-- The text of an error page counts as version 404. -/
theorem error_page_is_newer :
    is_newer_version "404 page not found".toList "1".toList = true ∧
      ¬ Documented "404 page not found".toList "1".toList := by
  have hnew : is_newer_version "404 page not found".toList "1".toList = true := by decide +kernel
  refine ⟨hnew, fun h => ?_⟩
  obtain ⟨⟨t, ht⟩, -⟩ := h.form hnew
  have hp : 'p' ∈ "404 page not found".toList := by decide
  generalize hv : "404 page not found".toList = v at ht hp
  cases ht with
  | week year week seq =>
      have hdot : '.' ∈ "404 page not found".toList := hv ▸ by simp
      exact absurd hdot (by decide)
  | seq seq => exact absurd (seq.digit _ hp) (by decide)

end Ota
