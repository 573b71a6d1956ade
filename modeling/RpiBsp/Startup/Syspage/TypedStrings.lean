import RpiBsp.Startup.Syspage.Strings

/-!
# Startup — Syspage — typed strings

`find_typed_string`, `del_typed_string` and `add_typed_string` of `strings.c`: a list of strings,
each with the word of its type in front of it and filled up to whole words, ended by the word
`_CS_NONE`, which is 0.

* `TypedTable` — the entries of the list, no type twice, and zeros behind them.
* `del_typed_string_spec` — the entry is taken out, and what it leaves at the end is zero again.
* `add_typed_string_spec` — the page overflows, or the entry of the type is the last one of the
list.
* `typed_string_run` — the list is what was added and not deleted since.
* `huge_typed_string` — a string whose size wraps is written over the end of the section.
-/

namespace Startup

open Support

/-! ### The code -/

/-- `a < b` for words that are an `int`. -/
def sltW (a b : ℕ) : Prop := addW 32 a (2 ^ 31) < addW 32 b (2 ^ 31)

instance (a b : ℕ) : Decidable (sltW a b) := inferInstanceAs (Decidable (_ < _))

/-- `&p[i]` for a word that is an `int`. -/
def intAt (p i : ℕ) : ℕ := if i < 2 ^ 31 then p + i else p - (2 ^ 32 - i)

/-- The loop of `find_typed_string`; the result is an `int`.  Nothing bounds it in the source;
`fuel` bounds its rounds, and `size` the bytes that `strlen` looks at. -/
def findTyped (f : ℕ → UInt8) (p size : ℕ) (type_index : BitVec 32) : ℕ → ℕ → Option ℕ
  | 0, _ => none
  | fuel + 1, i =>
      let type := load 4 (p + i) f
      if type = type_index.toNat then some i
      else if type = 0 then some (2 ^ 32 - 1)
      else
        let i := addW 32 i 4
        let i := addW 32 i (strlen f size (p + i) + 1)
        findTyped f p size type_index fuel (round 64 i 4 % 2 ^ 32)

/-- `find_typed_string`. -/
def find_typed_string (type_index : BitVec 32) (s : Syspage Sect) : Except Crash ℕ :=
  match findTyped s.mem (s.p (some .typed_strings)) (s.size (some .typed_strings)) type_index
      (s.size (some .typed_strings) + 1) 0 with
  | some i => .ok i
  | none => .error .outside

/-- The loop of `del_typed_string` that moves what is behind the string. -/
def shiftLoop (p last : ℕ) : ℕ → ℕ → ℕ → (ℕ → UInt8) → ℕ × ℕ × (ℕ → UInt8)
  | 0, i, j, f => (i, j, f)
  | fuel + 1, i, j, f =>
      if sltW j last then
        shiftLoop p last fuel (addW 32 i 1) (addW 32 j 1)
          (Function.update f (intAt p i) (f (intAt p j)))
      else (i, j, f)

/-- The loop of `del_typed_string` that clears what is left. -/
def clearLoop (p j : ℕ) : ℕ → ℕ → (ℕ → UInt8) → ℕ → UInt8
  | 0, _, f => f
  | fuel + 1, i, f =>
      if sltW i j then clearLoop p j fuel (addW 32 i 1) (Function.update f (intAt p i) 0) else f

/-- `del_typed_string`. -/
def del_typed_string (type_index : BitVec 32) (s : Syspage Sect) :
    Except Crash (Bool × Syspage Sect) := do
  let p := s.p (some .typed_strings)
  let size := s.size (some .typed_strings)
  let i ← find_typed_string type_index s
  if sltW i 0 then return (false, s)
  let j := addW 32 i 4
  let j := addW 32 j (strlen s.mem size (intAt p j) + 1)
  let j := round 64 j 4 % 2 ^ 32
  let last ← find_typed_string 0 s
  let (i, j, mem) := shiftLoop p last size i j s.mem
  return (true, { s with mem := clearLoop p j size i mem })

/-- `add_typed_string`. -/
def add_typed_string (L : Layout) (type_index : BitVec 32) (name : CString) (s : Syspage Sect) :
    Except Crash (ℕ × Syspage Sect) := do
  let p := s.p (some .typed_strings)
  let (_, s) ← del_typed_string type_index s
  let i ← find_typed_string 0 s
  let len := (name.length + 1) % 2 ^ 32
  let len := round 64 len 4 % 2 ^ 32
  let need := addW 32 len 8
  let spare := subW 32 (s.size (some .typed_strings)) i
  let s ← (if spare < need then
      grow_syspage_section L (some .typed_strings) (subW 32 need spare) s
    else .ok s)
  let mem := store 4 (p + i) type_index.toNat s.mem
  let mem := strlcpy (p + i + 4) name.chars (subW 32 (s.size (some .typed_strings)) i) mem
  return (i, { s with mem := mem })

/-! ### The list -/

/-- An entry: its type and its string. -/
abbrev TypedString := BitVec 32 × CString

namespace TypedString

/-- The zeros that fill up the last word. -/
def padding (name : CString) : ℕ := (name.length + 4) / 4 * 4 - (name.length + 1)

def bytes (e : TypedString) : List UInt8 :=
  leBytes 4 e.1.toNat ++ (e.2.bytes ++ List.replicate (padding e.2) 0)

/-- The size of an entry. -/
def length (e : TypedString) : ℕ := 4 + (e.2.length + 4) / 4 * 4

@[simp] theorem length_bytes (e : TypedString) : (bytes e).length = length e := by
  simp only [bytes, List.length_append, length_leBytes, CString.length_bytes, List.length_replicate,
    padding, length]
  omega

end TypedString

/-- The bytes of the entries. -/
def listed (es : List TypedString) : List UInt8 := es.flatMap TypedString.bytes

theorem listed_cons (e : TypedString) (es : List TypedString) :
    listed (e :: es) = TypedString.bytes e ++ listed es := rfl

theorem listed_append (es es' : List TypedString) : listed (es ++ es') = listed es ++ listed es' :=
  List.flatMap_append

theorem listed_aligned (es : List TypedString) : 4 ∣ (listed es).length := by
  induction es with
  | nil => exact Nat.dvd_zero 4
  | cons e es ih =>
      rw [listed_cons, List.length_append, TypedString.length_bytes, TypedString.length]
      omega

theorem length_le_listed (es : List TypedString) : es.length ≤ (listed es).length := by
  induction es with
  | nil => exact Nat.le_refl 0
  | cons e es ih =>
      rw [listed_cons, List.length_append, TypedString.length_bytes, TypedString.length,
        List.length_cons]
      omega

/-- Where the entry of a type is. -/
def offsetOf (es : List TypedString) (t : BitVec 32) : Option ℕ :=
  match es with
  | [] => none
  | e :: es => if e.1 = t then some 0 else (offsetOf es t).map (TypedString.length e + ·)

/-- The entries of the list, and how many zeros are behind them: the first word of these is the
end. -/
structure TypedTable (s : Syspage Sect) (es : List TypedString) (n : ℕ) : Prop where
  bytes : HasBytes s .typed_strings (listed es ++ List.replicate n 0)
  ended : 4 ≤ n
  typed : ∀ e ∈ es, e.1 ≠ 0
  nodup : (es.map Prod.fst).Nodup

theorem TypedTable.size {s : Syspage Sect} {es : List TypedString} {n : ℕ}
    (ht : TypedTable s es n) :
    s.size (some .typed_strings) = (listed es).length + n := by
  rw [ht.bytes.size, List.length_append, List.length_replicate]

theorem offsetOf_none {es : List TypedString} {t : BitVec 32} :
    offsetOf es t = none ↔ ∀ e ∈ es, e.1 ≠ t := by
  induction es with
  | nil => simp [offsetOf]
  | cons e es ih =>
      rw [offsetOf, List.forall_mem_cons]
      split
      case isTrue h => simp [h]
      case isFalse h => rw [Option.map_eq_none_iff, ih, and_iff_right h]

/-- The entry of a type, with what is in front of it and behind it. -/
theorem offsetOf_some {es : List TypedString} {t : BitVec 32} {o : ℕ} (h : offsetOf es t = some o) :
    ∃ es₁ name es₂, es = es₁ ++ (t, name) :: es₂ ∧ o = (listed es₁).length := by
  induction es generalizing o with
  | nil => cases h
  | cons e es ih =>
      rw [offsetOf] at h
      split at h
      case isTrue heq =>
        cases h
        exact ⟨[], e.2, es, by rw [← heq]; rfl, rfl⟩
      case isFalse =>
        obtain ⟨o', ho', rfl⟩ := Option.map_eq_some_iff.mp h
        obtain ⟨es₁, name, es₂, rfl, rfl⟩ := ih ho'
        refine ⟨e :: es₁, name, es₂, rfl, ?_⟩
        rw [listed_cons, List.length_append, TypedString.length_bytes]

/-! ### Finding -/

theorem sltW_iff {a b : ℕ} (ha : a < 2 ^ 31) (hb : b < 2 ^ 31) : sltW a b ↔ a < b := by
  rw [sltW, addW_of_lt (by omega), addW_of_lt (by omega)]
  omega

theorem intAt_of_lt {p i : ℕ} (h : i < 2 ^ 31) : intAt p i = p + i := if_pos h

theorem load_type {f : ℕ → UInt8} {a : ℕ} {e : TypedString} {l : List UInt8}
    (h : Holds f a (TypedString.bytes e ++ l)) : load 4 a f = e.1.toNat := by
  have hload := load_of_holds (holds_append.mp (holds_append.mp h).1).1
  rw [hload]
  exact Nat.mod_eq_of_lt e.1.isLt

/-- How an entry is skipped. -/
theorem skip_entry {f : ℕ → UInt8} {a i size : ℕ} {e : TypedString} {l : List UInt8}
    (h : Holds f (a + i) (TypedString.bytes e ++ l)) (hsize : e.2.length < size)
    (hi : i + TypedString.length e < 2 ^ 32) (hdvd : 4 ∣ i) :
    addW 32 i 4 = i + 4 ∧ strlen f size (a + (i + 4)) = e.2.length ∧
      round 64 (addW 32 (i + 4) (e.2.length + 1)) 4 % 2 ^ 32 = i + TypedString.length e := by
  have hname : Holds f (a + (i + 4)) e.2.bytes := by
    have := (holds_append.mp (holds_append.mp h).1).2
    rw [length_leBytes, Nat.add_assoc] at this
    exact (holds_append.mp this).1
  rw [TypedString.length] at hi
  have hround : round 64 (i + 4 + (e.2.length + 1)) 4 = (i + 4 + (e.2.length + 1) + 3) / 4 * 4 :=
    round_two_pow (k := 2) (by decide) (by omega)
  refine ⟨addW_of_lt (by omega), strlen_of_holds e.2.nul_free hname hsize, ?_⟩
  rw [addW_of_lt (by omega), hround, TypedString.length]
  omega

/-- The loop finds the entry of the type, or the end of the list. -/
theorem findTyped_eq {f : ℕ → UInt8} {p n : ℕ} (size : ℕ) (t : BitVec 32) {es : List TypedString}
    (htyped : ∀ e ∈ es, e.1 ≠ 0) (hn : 4 ≤ n) :
    ∀ i fuel, Holds f (p + i) (listed es ++ List.replicate n 0) → es.length < fuel →
      (listed es).length < size → i + (listed es).length < 2 ^ 32 → 4 ∣ i →
      findTyped f p size t fuel i = match offsetOf es t with
        | some o => some (i + o)
        | none => some (if t = 0 then i + (listed es).length else 2 ^ 32 - 1) := by
  induction es with
  | nil =>
      intro i fuel h hf _ _ _
      obtain ⟨fuel, rfl⟩ := Nat.exists_eq_succ_of_ne_zero (by omega : fuel ≠ 0)
      have hzero : load 4 (p + i) f = 0 := by
        refine load_of_zeros (w := 4) ?_
        have hsplit : List.replicate n (0 : UInt8) = List.replicate 4 0 ++
            List.replicate (n - 4) 0 := by
          rw [List.replicate_append_replicate, Nat.add_sub_cancel' hn]
        rw [listed, List.flatMap_nil, List.nil_append, hsplit] at h
        exact (holds_append.mp h).1
      rw [findTyped]
      dsimp only
      rw [hzero, offsetOf]
      by_cases ht : t = 0
      · rw [ht, if_pos rfl, if_pos rfl]
        rfl
      · have hne : ¬ 0 = t.toNat := fun h0 => ht (BitVec.eq_of_toNat_eq h0.symm)
        rw [if_neg hne, if_pos rfl, if_neg ht]
  | cons e es ih =>
      intro i fuel h hf hsize hi hdvd
      obtain ⟨fuel, rfl⟩ := Nat.exists_eq_succ_of_ne_zero (by omega : fuel ≠ 0)
      rw [listed_cons, List.append_assoc] at h
      rw [listed_cons, List.length_append, TypedString.length_bytes] at hsize hi
      have hload := load_type h
      have hlen : e.2.length < size := by rw [TypedString.length] at hsize; omega
      obtain ⟨hi4, hstr, hnext⟩ := skip_entry h hlen (by omega) hdvd
      have hrest := (holds_append.mp h).2
      rw [TypedString.length_bytes, Nat.add_assoc] at hrest
      rw [findTyped]
      dsimp only
      rw [hload, offsetOf]
      by_cases heq : e.1 = t
      · rw [if_pos (by rw [heq]), if_pos heq]
        rfl
      · have hne : ¬ e.1.toNat = t.toNat := fun hc => heq (BitVec.eq_of_toNat_eq hc)
        have hne0 : ¬ e.1.toNat = 0 := fun hc =>
          htyped e List.mem_cons_self (BitVec.eq_of_toNat_eq hc)
        have hdvd' : 4 ∣ i + TypedString.length e := by rw [TypedString.length]; omega
        rw [if_neg hne, if_neg hne0, if_neg heq, hi4, hstr, hnext,
          ih (fun d hd => htyped d (List.mem_cons_of_mem _ hd)) _ _ hrest
            (by rw [List.length_cons] at hf; omega) (by omega) (by omega) hdvd']
        cases offsetOf es t with
        | none =>
            simp only [Option.map_none, listed_cons, List.length_append, TypedString.length_bytes]
            congr 2
            omega
        | some o =>
            simp only [Option.map_some]
            congr 1
            omega

/-- What `find_typed_string` returns. -/
theorem TypedTable.find {L : Layout} {s : Syspage Sect} {es : List TypedString} {n : ℕ}
    (ht : TypedTable s es n) (h : Limited L s) (t : BitVec 32) :
    find_typed_string t s = match offsetOf es t with
      | some o => .ok o
      | none => .ok (if t = 0 then (listed es).length else 2 ^ 32 - 1) := by
  have hsize := ht.size
  have hlt := h.size_le .typed_strings
  have hended := ht.ended
  have hcount := length_le_listed es
  have hholds : Holds s.mem (s.p (some .typed_strings) + 0) (listed es ++ List.replicate n 0) :=
    ht.bytes.holds
  have hfind := findTyped_eq (s.size (some .typed_strings)) t ht.typed ht.ended 0
    (s.size (some .typed_strings) + 1) hholds (by omega) (by omega) (by omega) (Nat.dvd_zero 4)
  rw [find_typed_string, hfind]
  cases offsetOf es t with
  | none => simp only [Nat.zero_add]
  | some o => simp only [Nat.zero_add]

/-! ### Deleting -/

/-- What is behind the gap is moved to its front; what was there last is left behind. -/
theorem shiftLoop_spec (p : ℕ) {tail : List UInt8} :
    ∀ {fuel i : ℕ} {f : ℕ → UInt8} {gap : List UInt8},
    gap ≠ [] → Holds f (p + i) (gap ++ tail) → tail.length ≤ fuel →
    i + gap.length + tail.length < 2 ^ 31 →
    ∃ f' left, shiftLoop p (i + gap.length + tail.length) fuel i (i + gap.length) f =
        (i + tail.length, i + gap.length + tail.length, f') ∧
      left.length = gap.length ∧ Holds f' (p + i) (tail ++ left) ∧
      ∀ a, a < p + i ∨ p + i + gap.length + tail.length ≤ a → f' a = f a := by
  induction tail with
  | nil =>
      intro fuel i f gap _ h _ hlt
      refine ⟨f, gap, ?_, rfl, by simpa using h, fun _ _ => rfl⟩
      rw [List.length_nil, Nat.add_zero, Nat.add_zero] at *
      cases fuel with
      | zero => rfl
      | succ fuel => rw [shiftLoop, if_neg (by rw [sltW_iff hlt hlt]; exact Nat.lt_irrefl _)]
  | cons b tail ih =>
      intro fuel i f gap hgap h hfuel hlt
      obtain ⟨fuel, rfl⟩ := Nat.exists_eq_succ_of_ne_zero (by rintro rfl; simp at hfuel : fuel ≠ 0)
      obtain ⟨g, gap, rfl⟩ := List.exists_cons_of_ne_nil hgap
      simp only [List.length_cons] at hfuel hlt ⊢
      obtain ⟨hg, hb⟩ := holds_append.mp h
      have hbyte : f (p + (i + (gap.length + 1))) = b := by
        have := (holds_cons.mp hb).1
        rwa [List.length_cons, Nat.add_assoc] at this
      -- The byte that was moved is the last one of the gap now.
      have hnext : Holds (Function.update f (p + i) b) (p + (i + 1)) ((gap ++ [b]) ++ tail) := by
        have hrest : Holds f (p + i + 1) (gap ++ (b :: tail)) := by
          rw [List.cons_append] at h
          exact (holds_cons.mp h).2
        rw [List.append_assoc, ← Nat.add_assoc]
        exact hrest.update_apart (.inr (by omega))
      obtain ⟨f', left, hrun, hleft, hholds, hout⟩ :=
        ih (List.append_ne_nil_of_right_ne_nil gap (List.cons_ne_nil b [])) hnext
        (by omega : tail.length ≤ fuel) (by rw [List.length_append, List.length_singleton]; omega)
      rw [List.length_append, List.length_singleton] at hrun hleft hout
      refine ⟨f', left, ?_, hleft, ?_, fun a ha => ?_⟩
      · rw [shiftLoop, if_pos (by rw [sltW_iff (by omega) (by omega)]; omega),
          intAt_of_lt (by omega),
          intAt_of_lt (by omega), hbyte, addW_of_lt (by omega), addW_of_lt (by omega)]
        have e₁ : i + 1 + (gap.length + 1) + tail.length = i + (gap.length + 1) +
          (tail.length + 1) := by omega
        have e₂ : i + 1 + (gap.length + 1) = i + (gap.length + 1) + 1 := by omega
        have e₃ : i + 1 + tail.length = i + (tail.length + 1) := by omega
        rw [e₁, e₂, e₃] at hrun
        exact hrun
      · refine holds_cons.mpr ⟨?_, by rw [Nat.add_assoc]; exact hholds⟩
        rw [hout _ (.inl (by omega)), Function.update_self]
      · rw [hout a (by omega), Function.update_of_ne (by omega)]

theorem clearLoop_eq (p : ℕ) {n : ℕ} : ∀ {fuel i : ℕ} {f : ℕ → UInt8}, n ≤ fuel → i + n < 2 ^ 31 →
    clearLoop p (i + n) fuel i f = memset (p + i) n 0 f := by
  induction n with
  | zero =>
      intro fuel i f _ hlt
      have hnone : memset (p + i) 0 0 f = f := by
        funext a
        exact memset_outside (by omega)
      rw [hnone, Nat.add_zero]
      cases fuel with
      | zero => rfl
      | succ fuel =>
          rw [clearLoop, if_neg (by rw [sltW_iff (by omega) (by omega)]; exact Nat.lt_irrefl _)]
  | succ n ih =>
      intro fuel i f hfuel hlt
      obtain ⟨fuel, rfl⟩ := Nat.exists_eq_succ_of_ne_zero (by omega : fuel ≠ 0)
      rw [clearLoop, if_pos (by rw [sltW_iff (by omega) (by omega)]; omega), intAt_of_lt (by omega),
        addW_of_lt (by omega), show i + (n + 1) = i + 1 + n by omega, ih (by omega) (by omega)]
      funext a
      by_cases ha : a = p + i
      · rw [ha, memset_outside (by omega), Function.update_self, memset_inside (by omega)]
      · simp only [memset, Function.update_of_ne ha]
        congr 1
        simp only [eq_iff_iff]
        omega

/-- The two loops take the gap out and leave zeros at the end. -/
theorem shift_and_clear {p i : ℕ} (size : ℕ) {f : ℕ → UInt8} {gap tail : List UInt8}
    (hgap : gap ≠ [])
    (h : Holds f (p + i) (gap ++ tail)) (hsize : i + gap.length + tail.length ≤ size)
    (hlt : i + gap.length + tail.length < 2 ^ 31) :
    ∃ i' j' f', shiftLoop p (i + gap.length + tail.length) size i (i + gap.length) f =
        (i', j', f') ∧
      clearLoop p j' size i' f' = write (p + i) (tail ++ List.replicate gap.length 0) f := by
  obtain ⟨f', left, hrun, hleft, hholds, hout⟩ :=
    shiftLoop_spec p hgap h (show tail.length ≤ size by omega) hlt
  refine ⟨_, _, f', hrun, ?_⟩
  rw [show i + gap.length + tail.length = i + tail.length + gap.length by omega,
    clearLoop_eq p (by omega) (by omega)]
  refine eq_write_of_holds ?_ fun a ha => ?_
  · refine holds_append.mpr
      ⟨(holds_append.mp hholds).1.memset_apart (.inl (by omega)), fun a ha => ?_⟩
    rw [List.length_replicate] at ha
    rw [memset_inside (by omega), List.getElem_replicate]
  · rw [List.length_append, List.length_replicate] at ha
    rw [memset_outside (by omega), hout a (by omega)]

theorem filter_entry {es₁ es₂ : List TypedString} {t : BitVec 32} {name : CString}
    (h : ((es₁ ++ (t, name) :: es₂).map Prod.fst).Nodup) :
    (es₁ ++ (t, name) :: es₂).filter (fun e => e.1 ≠ t) = es₁ ++ es₂ := by
  rw [List.map_append, List.map_cons, List.nodup_middle, List.nodup_cons, List.mem_append,
    not_or] at h
  have hkeep : ∀ {es : List TypedString}, t ∉ es.map Prod.fst →
      es.filter (fun e => e.1 ≠ t) = es := by
    intro es hes
    refine List.filter_eq_self.mpr fun e he => decide_eq_true fun heq => ?_
    exact hes (List.mem_map.mpr ⟨e, he, heq⟩)
  rw [List.filter_append, List.filter_cons_of_neg (by simp), hkeep h.1.1, hkeep h.1.2]

theorem del_typed_string_ok {t : BitVec 32} {s : Syspage Sect} {i j last i' j' : ℕ}
    {mem mem' : ℕ → UInt8} (hfind : find_typed_string t s = .ok i) (hneg : ¬ sltW i 0)
    (hj : round 64 (addW 32 (addW 32 i 4) (strlen s.mem (s.size (some .typed_strings))
      (intAt (s.p (some .typed_strings)) (addW 32 i 4)) + 1)) 4 % 2 ^ 32 = j)
    (hlast : find_typed_string 0 s = .ok last)
    (hshift : shiftLoop (s.p (some .typed_strings)) last (s.size (some .typed_strings)) i j s.mem =
      (i', j', mem'))
    (hclear : clearLoop (s.p (some .typed_strings)) j' (s.size (some .typed_strings)) i'
      mem' = mem) :
    del_typed_string t s = .ok (true, { s with mem := mem }) := by
  rw [del_typed_string, hfind, ok_bind, if_neg hneg]
  dsimp only
  rw [hj, hlast, ok_bind, hshift]
  dsimp only
  rw [hclear]
  rfl

/-- The entry of a type is taken out of the list. -/
theorem del_entry {L : Layout} (hL : L.Valid) {s : Syspage Sect}
    {es₁ es₂ : List TypedString} {n : ℕ}
    {t : BitVec 32} {name : CString} (ht : TypedTable s (es₁ ++ (t, name) :: es₂) n)
    (h : Limited L s)
    (hfind : find_typed_string t s = .ok (listed es₁).length) :
    let s' := s.written (s.p (some .typed_strings) + (listed es₁).length)
      (listed es₂ ++ List.replicate (TypedString.length (t, name)) 0)
    del_typed_string t s = .ok (true, s') ∧ Limited L s' ∧
      TypedTable s' (es₁ ++ es₂) (TypedString.length (t, name) + n) ∧
      ∀ i l, i ≠ .typed_strings → HasBytes s i l → HasBytes s' i l := by
  intro s'
  have hsize := ht.size
  have hlt := h.size_le .typed_strings
  have hended := ht.ended
  have hlen : (listed (es₁ ++ (t, name) :: es₂)).length =
      (listed es₁).length + TypedString.length (t, name) + (listed es₂).length := by
    rw [listed_append, listed_cons, List.length_append, List.length_append,
      TypedString.length_bytes, Nat.add_assoc]
  have hbytes : HasBytes s .typed_strings (listed es₁ ++
      (TypedString.bytes (t, name) ++ listed es₂) ++ List.replicate n 0) := by
    rw [← listed_cons, ← listed_append]
    exact ht.bytes
  have hentry : Holds s.mem (s.p (some .typed_strings) + (listed es₁).length)
      (TypedString.bytes (t, name) ++ listed es₂) :=
    (holds_append.mp (holds_append.mp hbytes.holds).1).2
  have hname : name.length < TypedString.length (t, name) := by
    change name.length < 4 + (name.length + 4) / 4 * 4
    omega
  obtain ⟨hi4, hstr, hnext⟩ :=
    skip_entry hentry (show name.length < s.size (some .typed_strings) by omega)
    (by omega) (listed_aligned es₁)
  have hlast : find_typed_string 0 s = .ok (listed (es₁ ++ (t, name) :: es₂)).length := by
    have hnone : offsetOf (es₁ ++ (t, name) :: es₂) 0 = none := offsetOf_none.mpr ht.typed
    rw [ht.find h, hnone]
    rfl
  have hgap : TypedString.bytes (t, name) ≠ [] := fun hnil => by
    have := TypedString.length_bytes (t, name)
    rw [hnil, List.length_nil] at this
    omega
  obtain ⟨i', j', f', hshift, hclear⟩ := shift_and_clear (s.size (some .typed_strings)) hgap hentry
    (by rw [TypedString.length_bytes]; omega) (by rw [TypedString.length_bytes]; omega)
  rw [TypedString.length_bytes] at hshift hclear
  obtain ⟨hlim, hbytes', hother⟩ := h.write hL hbytes
    (show (TypedString.bytes (t, name) ++ listed es₂).length =
      (listed es₂ ++ List.replicate (TypedString.length (t, name)) 0).length by
        rw [List.length_append, List.length_append, TypedString.length_bytes, List.length_replicate,
          Nat.add_comm])
  refine ⟨?_, hlim, ⟨?_, by omega, fun e he => ?_, ?_⟩, hother⟩
  · have hneg : ¬ sltW (listed es₁).length 0 := by
      rw [sltW_iff (by omega) (by omega)]
      exact Nat.not_lt_zero _
    have hlow : (listed es₁).length + 4 < 2 ^ 31 := by omega
    refine del_typed_string_ok hfind hneg ?_ hlast (by rw [hlen]; exact hshift) hclear
    rw [hi4, intAt_of_lt hlow, hstr, hnext]
  · rw [List.append_assoc, List.append_assoc, List.replicate_append_replicate, ← List.append_assoc,
      ← listed_append] at hbytes'
    exact hbytes'
  · refine ht.typed e ?_
    rcases List.mem_append.mp he with he | he
    · exact List.mem_append_left _ he
    · exact List.mem_append_right _ (List.mem_cons_of_mem _ he)
  · have hnodup := ht.nodup
    rw [List.map_append, List.map_cons, List.nodup_middle, List.nodup_cons] at hnodup
    rw [List.map_append]
    exact hnodup.2

/-- There is nothing to delete. -/
theorem del_none {L : Layout} {s : Syspage Sect} {es : List TypedString} {n : ℕ}
    (ht : TypedTable s es n)
    (h : Limited L s) {t : BitVec 32} (h0 : t ≠ 0) (hoff : offsetOf es t = none) :
    del_typed_string t s = .ok (false, s) := by
  have hfind := ht.find h t
  rw [hoff] at hfind
  dsimp only at hfind
  rw [if_neg h0] at hfind
  have hneg : sltW (2 ^ 32 - 1) 0 := by decide
  rw [del_typed_string, hfind, ok_bind, if_pos hneg]
  rfl

/-- **Deleting**: the entry of the type is not in the list any more. -/
theorem del_typed_string_spec {L : Layout} (hL : L.Valid) {s : Syspage Sect}
    {es : List TypedString} {n : ℕ}
    (ht : TypedTable s es n) (h : Limited L s) {t : BitVec 32} (h0 : t ≠ 0) :
    ∃ b s' n', del_typed_string t s = .ok (b, s') ∧ Limited L s' ∧
      TypedTable s' (es.filter fun e => e.1 ≠ t) n' ∧
      s'.p (some .typed_strings) = s.p (some .typed_strings) ∧
      ∀ i l, i ≠ .typed_strings → HasBytes s i l → HasBytes s' i l := by
  have hfind := ht.find h t
  cases hoff : offsetOf es t with
  | none =>
      have hkeep : (es.filter fun e => e.1 ≠ t) = es :=
        List.filter_eq_self.mpr fun e he => decide_eq_true (offsetOf_none.mp hoff e he)
      exact ⟨false, s, n, del_none ht h h0 hoff, h, by rw [hkeep]; exact ht, rfl,
        fun _ _ _ hb => hb⟩
  | some o =>
      rw [hoff] at hfind
      obtain ⟨es₁, name, es₂, rfl, rfl⟩ := offsetOf_some hoff
      obtain ⟨hdel, hlim, ht', hother⟩ := del_entry hL ht h hfind
      rw [filter_entry ht.nodup]
      exact ⟨true, _, _, hdel, hlim, ht', rfl, hother⟩

/-! ### Adding -/

variable {L : Layout}

/-- A string whose size does not wrap. -/
def CString.Typable (name : CString) : Prop := name.length ≤ 2 ^ 31 - 64

/-- An entry is put behind the others. -/
theorem TypedTable.put (hL : L.Valid) {s : Syspage Sect} {es : List TypedString} {n : ℕ}
    (ht : TypedTable s es n) (h : Limited L s) {e : TypedString}
    (hroom : TypedString.length e + 4 ≤ n)
    (h0 : e.1 ≠ 0) (hnew : e.1 ∉ es.map Prod.fst) :
    let a := s.p (some .typed_strings) + (listed es).length
    let s' := (s.written a (leBytes 4 e.1.toNat)).written (a + 4) e.2.bytes
    Limited L s' ∧ TypedTable s' (es ++ [e]) (n - TypedString.length e) ∧
      ∀ i l, i ≠ .typed_strings → HasBytes s i l → HasBytes s' i l := by
  intro a s'
  have hpad : e.2.length + 1 + TypedString.padding e.2 + 4 = TypedString.length e := by
    rw [TypedString.padding, TypedString.length]
    omega
  have hzeros : listed es ++ List.replicate n 0 = listed es ++ List.replicate 4 0 ++
      (List.replicate (e.2.length + 1) 0 ++ (List.replicate (TypedString.padding e.2) 0 ++
        List.replicate (n - TypedString.length e) 0)) := by
    simp only [List.append_assoc, List.replicate_append_replicate]
    congr 2
    omega
  have hbytes := ht.bytes
  rw [hzeros] at hbytes
  obtain ⟨h₁, hbytes₁, hother₁⟩ := h.write hL hbytes
    (show (List.replicate 4 (0 : UInt8)).length = (leBytes 4 e.1.toNat).length by
      rw [length_leBytes, List.length_replicate])
  rw [← List.append_assoc] at hbytes₁
  obtain ⟨h₂, hbytes₂, hother₂⟩ := h₁.write hL hbytes₁
    (show (List.replicate (e.2.length + 1) (0 : UInt8)).length = e.2.bytes.length by
      rw [CString.length_bytes, List.length_replicate])
  have ha : (s.written a (leBytes 4 e.1.toNat)).p (some .typed_strings) +
      (listed es ++ leBytes 4 e.1.toNat).length = a + 4 := by
    rw [written_p, List.length_append, length_leBytes, ← Nat.add_assoc]
  rw [ha] at h₂ hbytes₂ hother₂
  refine ⟨h₂, ⟨?_, by omega, fun d hd => ?_, ?_⟩, fun i l hi hb =>
    hother₂ i l hi (hother₁ i l hi hb)⟩
  · have hlisted : listed (es ++ [e]) = listed es ++ TypedString.bytes e := by
      rw [listed_append, listed_cons]
      exact congrArg _ (List.append_nil _)
    rw [hlisted, TypedString.bytes]
    simpa only [List.append_assoc] using hbytes₂
  · rcases List.mem_append.mp hd with hd | hd
    · exact ht.typed d hd
    · rw [List.mem_singleton.mp hd]
      exact h0
  · rw [List.map_append, List.map_cons, List.map_nil]
    exact List.nodup_append.mpr ⟨ht.nodup, List.nodup_singleton _, fun t hs u hu heq => by
      rw [List.mem_singleton] at hu
      exact hnew (hu ▸ heq ▸ hs)⟩

/-- **Adding**: the page overflows, or the string is the only one of its type. -/
theorem add_typed_string_spec (hL : L.Valid) {s : Syspage Sect} {es : List TypedString} {n : ℕ}
    (ht : TypedTable s es n) (h : Limited L s) {t : BitVec 32} (h0 : t ≠ 0) {name : CString}
    (hname : CString.Typable name) :
    add_typed_string L t name s = .error .syspage_overflow ∨ ∃ i s' n',
      add_typed_string L t name s = .ok (i, s') ∧ Limited L s' ∧
      TypedTable s' ((es.filter fun e => e.1 ≠ t) ++ [(t, name)]) n' ∧
      ∀ k l, k ≠ .typed_strings → HasBytes s k l → HasBytes s' k l := by
  have hshort : name.length ≤ 2 ^ 31 - 64 := hname
  obtain ⟨b, s₁, n₁, hdel, h₁, ht₁, hp₁, hother₁⟩ := del_typed_string_spec hL ht h h0
  set es₁ := es.filter fun e => e.1 ≠ t
  have hsize₁ := ht₁.size
  have hle₁ := h₁.size_le .typed_strings
  have hended := ht₁.ended
  have hfind : find_typed_string 0 s₁ = .ok (listed es₁).length := by
    rw [ht₁.find h₁, offsetOf_none.mpr ht₁.typed]
    rfl
  have hneed : addW 32 (round 64 ((name.length + 1) % 2 ^ 32) 4 % 2 ^ 32) 8 =
      TypedString.length (t, name) + 4 := by
    have hround : round 64 (name.length + 1) 4 = (name.length + 1 + 3) / 4 * 4 :=
      round_two_pow (k := 2) (by decide) (by omega)
    rw [Nat.mod_eq_of_lt (show name.length + 1 < 2 ^ 32 by omega), hround,
      Nat.mod_eq_of_lt (by omega), addW_of_lt (by omega)]
    change _ = 4 + (name.length + 4) / 4 * 4 + 4
    omega
  have hspare : subW 32 (s₁.size (some .typed_strings)) (listed es₁).length = n₁ := by
    rw [hsize₁, subW_of_le (by omega) (by omega), Nat.add_sub_cancel_left]
  have hentry : TypedString.length (t, name) = 4 + (name.length + 4) / 4 * 4 := rfl
  have hadd : n₁ < TypedString.length (t, name) + 4 →
      TypedString.length (t, name) + 4 ≤ n₁ + subW 32 (TypedString.length (t, name) + 4) n₁ ∧
        subW 32 (TypedString.length (t, name) + 4) n₁ ≤ 2 ^ 31 - 8 := by
    intro hroom
    rw [subW_of_le (by omega) (by omega)]
    omega
  have hcall : add_typed_string L t name s = (do
      let s₂ ← (if n₁ < TypedString.length (t, name) + 4 then
          grow_syspage_section L (some .typed_strings)
        (subW 32 (TypedString.length (t, name) + 4) n₁) s₁ else .ok s₁)
      return ((listed es₁).length, { s₂ with
        mem := (strlcpy (s.p (some .typed_strings) + (listed es₁).length + 4) name.chars
          (subW 32 (s₂.size (some .typed_strings)) (listed es₁).length)
          (store 4 (s.p (some .typed_strings) + (listed es₁).length) t.toNat s₂.mem)) })) := by
    rw [add_typed_string, hdel, ok_bind]
    dsimp only
    rw [hfind, ok_bind, hneed, hspare]
  rw [hcall]
  rcases h₁.room hL ht₁.bytes hadd with hover | ⟨s₂, n₂, hok, h₂, hb₂, hneed₂, hn₂, hp₂, hother₂⟩
  · exact .inl (by rw [hover]; rfl)
  · have ht₂ : TypedTable s₂ es₁ n₂ := ⟨hb₂, by omega, ht₁.typed, ht₁.nodup⟩
    have hnew : t ∉ es₁.map Prod.fst := fun hmem => by
      obtain ⟨e, he, rfl⟩ := List.mem_map.mp hmem
      exact absurd rfl (of_decide_eq_true (List.mem_filter.mp he).2)
    obtain ⟨h₃, ht₃, hother₃⟩ := ht₂.put hL h₂ (e := (t, name)) hneed₂ h0 hnew
    refine .inr ⟨(listed es₁).length, _, _, ?_, h₃, ht₃, fun k l hk hb =>
      hother₃ k l hk (hother₂ k l hk (hother₁ k l hk hb))⟩
    have hsize₂ := ht₂.size
    have hle₂ := h₂.size_le .typed_strings
    rw [hok, ok_bind, ← hp₁, ← hp₂, hsize₂, subW_of_le (by omega) (by omega),
      Nat.add_sub_cancel_left,
      strlcpy_of_lt (show name.chars.length < n₂ by change name.length < n₂; omega), store_eq_write]
    rfl

/-! ### Runs -/

/-- Calls of `add_typed_string`, for strings that `C` allows, and of `del_typed_string`, among other
calls on the page; the function has the string that was added last for each type, if it was not
deleted since. -/
inductive TypedRun (L : Layout) (C : CString → Prop) (s₀ : Syspage Sect) :
    Syspage Sect → (BitVec 32 → Option CString) → Prop where
  | start : TypedRun L C s₀ s₀ fun _ => none
  | add {s s' : Syspage Sect} {m : BitVec 32 → Option CString} {t : BitVec 32} {name : CString}
      {i : ℕ} :
      TypedRun L C s₀ s m → t ≠ 0 → C name → add_typed_string L t name s = .ok (i, s') →
      TypedRun L C s₀ s' (Function.update m t (some name))
  | del {s s' : Syspage Sect} {m : BitVec 32 → Option CString} {t : BitVec 32} {b : Bool} :
      TypedRun L C s₀ s m → t ≠ 0 → del_typed_string t s = .ok (b, s') →
      TypedRun L C s₀ s' (Function.update m t none)
  | page {s s' : Syspage Sect} {m : BitVec 32 → Option CString} :
      TypedRun L C s₀ s m → PageStep L s s' → TypedRun L C s₀ s' m

/-- The string of a type is at an offset. -/
structure TypedAt (s : Syspage Sect) (i : ℕ) (t : BitVec 32) (name : CString) : Prop where
  aligned : 4 ∣ i
  inside : i + 4 + name.length + 1 ≤ s.size (some .typed_strings)
  type : load 4 (s.p (some .typed_strings) + i) s.mem = t.toNat
  string : Holds s.mem (s.p (some .typed_strings) + i + 4) name.bytes

/-- What the callers rely on. -/
structure TypedStrings (s : Syspage Sect) (m : BitVec 32 → Option CString) : Prop where
  missing : ∀ t ≠ 0, m t = none → find_typed_string t s = .ok (2 ^ 32 - 1)
  found : ∀ t ≠ 0, ∀ name, m t = some name → ∃ i, find_typed_string t s = .ok i ∧ TypedAt s i t name
  listed : ∃ es n, TypedTable s es n ∧ ∀ t name, (t, name) ∈ es ↔ m t = some name

/-- The entries of the list are those of the function. -/
def Listed (L : Layout) (s : Syspage Sect) (m : BitVec 32 → Option CString) : Prop :=
  ∃ es n, Limited L s ∧ TypedTable s es n ∧ ∀ t name, (t, name) ∈ es ↔ m t = some name

theorem TypedTable.at {s : Syspage Sect} {es₁ es₂ : List TypedString} {n : ℕ} {t : BitVec 32}
    {name : CString}
    (ht : TypedTable s (es₁ ++ (t, name) :: es₂) n) :
      TypedAt s (Startup.listed es₁).length t name := by
  have hsize := ht.size
  have hholds := ht.bytes.holds
  rw [listed_append, listed_cons, List.append_assoc, List.append_assoc] at hholds
  have hentry := (holds_append.mp hholds).2
  have hlen : TypedString.length (t, name) = 4 + (name.length + 4) / 4 * 4 := rfl
  rw [listed_append, listed_cons, List.length_append, List.length_append,
    TypedString.length_bytes] at hsize
  refine ⟨listed_aligned es₁, by omega, load_type hentry, ?_⟩
  have hstring := (holds_append.mp (holds_append.mp hentry).1).2
  rw [length_leBytes] at hstring
  exact (holds_append.mp hstring).1

theorem Listed.typedStrings {s : Syspage Sect} {m : BitVec 32 → Option CString} (h : Listed L s m) :
    TypedStrings s m := by
  obtain ⟨es, n, hlim, ht, hm⟩ := h
  refine ⟨fun t h0 hnone => ?_, fun t h0 name hsome => ?_, es, n, ht, hm⟩
  · have hoff : offsetOf es t = none := offsetOf_none.mpr fun e he heq => by
      have := (hm t e.2).mp (heq ▸ he)
      rw [hnone] at this
      cases this
    rw [ht.find hlim, hoff]
    dsimp only
    rw [if_neg h0]
  · have hmem := (hm t name).mpr hsome
    cases hoff : offsetOf es t with
    | none => exact absurd rfl (offsetOf_none.mp hoff _ hmem)
    | some o =>
        obtain ⟨es₁, name', es₂, rfl, rfl⟩ := offsetOf_some hoff
        have hname : m t = some name' := (hm t name').mp (by simp)
        rw [hsome] at hname
        cases hname
        refine ⟨_, ?_, ht.at⟩
        rw [ht.find hlim, hoff]

theorem Listed.del (hL : L.Valid) {s s' : Syspage Sect} {m : BitVec 32 → Option CString}
    (h : Listed L s m)
    {t : BitVec 32} (h0 : t ≠ 0) {b : Bool} (hdel : del_typed_string t s = .ok (b, s')) :
    Listed L s' (Function.update m t none) := by
  obtain ⟨es, n, hlim, ht, hm⟩ := h
  obtain ⟨b', s'', n', hok, hlim', ht', _⟩ := del_typed_string_spec hL ht hlim h0
  rw [hdel] at hok
  cases hok
  refine ⟨_, n', hlim', ht', fun u name => ?_⟩
  rw [List.mem_filter, hm, decide_eq_true_iff]
  by_cases hu : u = t
  · subst hu
    rw [Function.update_self]
    simp
  · rw [Function.update_of_ne hu]
    simp [hu]

theorem Listed.add (hL : L.Valid) {s s' : Syspage Sect} {m : BitVec 32 → Option CString}
    (h : Listed L s m)
    {t : BitVec 32} (h0 : t ≠ 0) {name : CString} (hname : CString.Typable name) {i : ℕ}
    (hadd : add_typed_string L t name s = .ok (i, s')) :
      Listed L s' (Function.update m t (some name)) := by
  obtain ⟨es, n, hlim, ht, hm⟩ := h
  rcases add_typed_string_spec hL ht hlim h0 hname with hover | ⟨i', s'', n', hok, hlim', ht', _⟩
  · rw [hadd] at hover
    cases hover
  · rw [hadd] at hok
    cases hok
    refine ⟨_, n', hlim', ht', fun u name' => ?_⟩
    rw [List.mem_append, List.mem_filter, hm, decide_eq_true_iff, List.mem_singleton]
    by_cases hu : u = t
    · subst hu
      rw [Function.update_self]
      simp [eq_comm]
    · rw [Function.update_of_ne hu]
      simp [hu]

theorem Listed.page (hL : L.Valid) {s s' : Syspage Sect} {m : BitVec 32 → Option CString}
    (h : Listed L s m) (hstep : PageStep L s s') : Listed L s' m := by
  obtain ⟨es, n, hlim, ht, hm⟩ := h
  obtain ⟨hlim', hbytes⟩ := hstep.limited hL hlim
  obtain ⟨k, hk⟩ := hbytes .typed_strings _ ht.bytes
  rw [List.append_assoc, List.replicate_append_replicate] at hk
  have hended := ht.ended
  exact ⟨es, n + k, hlim', ⟨hk, by omega, ht.typed, ht.nodup⟩, hm⟩

theorem TypedRun.listed (hL : L.Valid) {s₀ s : Syspage Sect} {m : BitVec 32 → Option CString}
    (h₀ : Listed L s₀ fun _ => none) (hrun : TypedRun L CString.Typable s₀ s m) : Listed L s m := by
  induction hrun with
  | start => exact h₀
  | add _ h0 hname hadd ih => exact ih.add hL h0 hname hadd
  | del _ h0 hdel ih => exact ih.del hL h0 hdel
  | page _ hstep ih => exact ih.page hL hstep

/-- **The list is what was added.**  From the page as it is set up, whatever is added and deleted
and whatever other calls are made on the page: a type is found when it was added and not deleted
since, with the string that was added last; no type is there twice; the entries are whole words, and
behind them the section ends in zeros.  `del_typed_string` returns, and `add_typed_string` too
unless the page overflows. -/
theorem typed_string_run (hL : L.Valid) (hsp : L.spsize ≤ 2 ^ 31) {prefix_size : ℕ}
    (hp : prefix_size ≤ 2 ^ 31 - 8) {s₀ s : Syspage Sect} {m : BitVec 32 → Option CString}
    (hs₀ : InitPage L prefix_size s₀) (hrun : TypedRun L CString.Typable s₀ s m) :
    TypedStrings s m ∧ (∀ t ≠ 0, ∃ b s', del_typed_string t s = .ok (b, s')) ∧
      ∀ t ≠ 0, ∀ name, CString.Typable name →
        add_typed_string L t name s = .error .syspage_overflow ∨
        ∃ i s', add_typed_string L t name s = .ok (i, s') := by
  obtain ⟨hlim₀, hzeros, _, _⟩ := hs₀.spec hL hsp hp
  have hstart : Listed L s₀ fun _ => none :=
    ⟨[], 8, hlim₀, ⟨hzeros, by decide, fun _ he => absurd he List.not_mem_nil, List.nodup_nil⟩,
      fun t name => by simp⟩
  have hlisted := hrun.listed hL hstart
  refine ⟨hlisted.typedStrings, ?_⟩
  obtain ⟨es, n, hlim, ht, _⟩ := hlisted
  refine ⟨fun t h0 => ?_, fun t h0 name hname => ?_⟩
  · obtain ⟨b, s', _, hok, _⟩ := del_typed_string_spec hL ht hlim h0
    exact ⟨b, s', hok⟩
  · rcases add_typed_string_spec hL ht hlim h0 hname with hover | ⟨i, s', _, hok, _⟩
    · exact .inl hover
    · exact .inr ⟨i, s', hok⟩

/-- A string is added, replaced by a longer one behind another type, and deleted. -/
theorem typed_string_run_three : ∃ s₀ s, stringsPage = .ok s₀ ∧
    TypedRun smallLayout CString.Typable s₀ s (Function.update (Function.update (Function.update
      (fun _ => none) 1 (some shortString)) 2 (some longString)) 1 none) ∧
    TypedStrings s (Function.update (Function.update (Function.update
      (fun _ => none) 1 (some shortString)) 2 (some longString)) 1 none) := by
  have hrun : (do
      let s ← stringsPage
      let r₁ ← add_typed_string smallLayout 1 shortString s
      let r₂ ← add_typed_string smallLayout 2 longString r₁.2
      let r₃ ← del_typed_string 1 r₂.2
      return (r₁.1, r₂.1, r₃.1)).toOption = some (0, 8, true) := by decide +kernel
  obtain ⟨s₀, hs₀, hrun⟩ := bind_eq_ok.mp (toOption_eq_some.mp hrun)
  obtain ⟨⟨o₁, s₁⟩, hs₁, hrun⟩ := bind_eq_ok.mp hrun
  obtain ⟨⟨o₂, s₂⟩, hs₂, hrun⟩ := bind_eq_ok.mp hrun
  obtain ⟨⟨b, s₃⟩, hs₃, _⟩ := bind_eq_ok.mp hrun
  have hshort : CString.Typable shortString := by unfold CString.Typable; decide
  have hlong : CString.Typable longString := by unfold CString.Typable; decide
  have hcalls := TypedRun.del (.add (.add .start (by decide) hshort hs₁) (by decide) hlong hs₂)
    (by decide) hs₃
  exact ⟨s₀, s₃, hs₀, hcalls,
    (typed_string_run smallLayout_valid (by decide) (by decide) (stringsPage_init hs₀) hcalls).1⟩

/-- A string of `2 ^ 32 - 5` characters. -/
def hugeString : CString :=
  ⟨List.replicate (2 ^ 32 - 5) 0x61, fun h => absurd (List.mem_replicate.mp h).2 (by decide)⟩

theorem length_hugeString : hugeString.length = 2 ^ 32 - 5 := List.length_replicate

/-- The size that the string needs wraps to 4, so that the section is not grown for it. -/
theorem huge_typed_string : ∃ s₀ s, stringsPage = .ok s₀ ∧
    TypedRun smallLayout (fun _ => True) s₀ s
      (Function.update (fun _ => none) 1 (some hugeString)) ∧
    ¬ TypedStrings s (Function.update (fun _ => none) 1 (some hugeString)) := by
  have hinit : stringsPage.toOption.map (fun s => s.size (some .typed_strings)) = some 8 := by
    decide +kernel
  obtain ⟨s₀, hs₀, hsize⟩ := Option.map_eq_some_iff.mp hinit
  have hs₀ := toOption_eq_some.mp hs₀
  obtain ⟨hlim, hzeros, _, _⟩ :=
    (stringsPage_init hs₀).spec smallLayout_valid (by decide) (by decide)
  have ht : TypedTable s₀ [] 8 :=
    ⟨hzeros, by decide, fun _ he => absurd he List.not_mem_nil, List.nodup_nil⟩
  have hdel : del_typed_string 1 s₀ = .ok (false, s₀) := del_none ht hlim (by decide) rfl
  have hfind : find_typed_string 0 s₀ = .ok 0 := ht.find hlim 0
  have hneed : addW 32 (round 64 ((hugeString.length + 1) % 2 ^ 32) 4 % 2 ^ 32) 8 = 4 := by
    rw [length_hugeString]
    decide
  have hspare : subW 32 (s₀.size (some .typed_strings)) 0 = 8 := by
    rw [hsize]
    decide
  have hadd : ∃ mem, add_typed_string smallLayout 1 hugeString s₀ =
      .ok (0, { s₀ with mem := mem }) := by
    rw [add_typed_string, hdel, ok_bind]
    dsimp only
    rw [hfind, ok_bind, hneed, hspare, if_neg (by decide), ok_bind]
    exact ⟨_, rfl⟩
  obtain ⟨mem, hadd⟩ := hadd
  refine ⟨s₀, _, hs₀, .add .start (by decide) trivial hadd, fun h => ?_⟩
  obtain ⟨i, _, hat⟩ := h.found 1 (by decide) hugeString (Function.update_self ..)
  have hin := hat.inside
  rw [show Syspage.size { s₀ with mem := mem } (some .typed_strings) = 8 from hsize,
    length_hugeString] at hin
  omega

end Startup
