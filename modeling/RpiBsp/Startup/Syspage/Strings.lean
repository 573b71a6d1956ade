import RpiBsp.Startup.Syspage.Sections
import RpiBsp.Support.CString

/-!
# Startup — Syspage — strings

`add_string` of `strings.c`: a table of strings packed one after the other and ended by an empty
one. A string that is in the table is not added again, and other tables keep offsets into it.

* `Table` — the strings of the table, none of them empty, and zeros behind them.
* `add_string_spec` — one call: the string is found, or added at the end, or the page overflows.
* `string_run` — every offset keeps denoting its string, as long as no empty string is added.
* `empty_string_renamed` — an empty string is given the place where the next one is put.
-/

namespace Startup

open Support

/-! ### The code -/

/-- Where the loop of `add_string` ends. -/
inductive Scan where
  | found (i : ℕ)
  | free (i : ℕ)
deriving DecidableEq, Repr

/-- The loop of `add_string`.  Nothing bounds it in the source; `fuel` bounds its rounds, and `size`
the bytes that `strlen` looks at. -/
def scanString (f : ℕ → UInt8) (p size : ℕ) (name : CString) : ℕ → ℕ → Option Scan
  | 0, _ => none
  | fuel + 1, i =>
      if f (p + i) = 0 then some (.free i)
      else if streq f name.chars (p + i) then some (.found i)
      else scanString f p size name fuel (addW 32 i (strlen f size (p + i) + 1))

/-- `add_string`. -/
def add_string (L : Layout) (name : CString) (s : Syspage Sect) : Except Crash (ℕ × Syspage Sect) :=
  let p := s.p (some .strings)
  let size := s.size (some .strings)
  match scanString s.mem p size name (size + 1) 0 with
  | none => .error .outside
  | some (.found i) => .ok (i, s)
  | some (.free i) => do
      let len := (name.length + 2) % 2 ^ 32
      let spare := subW 32 size i
      let s ← (if spare < len then
          grow_syspage_section L (some .strings) (round 64 (subW 32 len spare) 128 % 2 ^ 32) s
        else .ok s)
      let mem := strlcpy (p + i) name.chars (subW 32 (s.size (some .strings)) i) s.mem
      return (i, { s with mem := mem })

/-! ### The table -/

/-- The bytes of the strings. -/
def packed (names : List CString) : List UInt8 := names.flatMap CString.bytes

theorem packed_cons (c : CString) (names : List CString) :
    packed (c :: names) = c.bytes ++ packed names := rfl

theorem packed_append (names names' : List CString) :
    packed (names ++ names') = packed names ++ packed names' := List.flatMap_append

/-- The place of a string among others. -/
def place (names : List CString) (name : CString) : Option ℕ :=
  match names with
  | [] => none
  | c :: names => if c = name then some 0 else (place names name).map (c.length + 1 + ·)

/-- The strings of the table, and how many zeros are behind them. -/
structure Table (s : Syspage Sect) (names : List CString) (n : ℕ) : Prop where
  bytes : HasBytes s .strings (packed names ++ List.replicate n 0)
  pos : 0 < n
  nonempty : ∀ c ∈ names, c.chars ≠ []

/-- The string at an offset. -/
def Denotes (s : Syspage Sect) (off : ℕ) (name : CString) : Prop :=
  off + name.length + 1 ≤ s.size (some .strings) ∧
    Holds s.mem (s.p (some .strings) + off) name.bytes

theorem place_append {names : List CString} {name : CString} {o : ℕ} (h : place names name = some o)
    (names' : List CString) : place (names ++ names') name = some o := by
  induction names generalizing o with
  | nil => cases h
  | cons c names ih =>
      rw [List.cons_append, place]
      rw [place] at h
      split at h
      · rw [if_pos ‹_›]
        exact h
      · rw [if_neg ‹_›]
        obtain ⟨o', ho', rfl⟩ := Option.map_eq_some_iff.mp h
        rw [ih ho']
        rfl

/-- A string that is not there is put behind the others. -/
theorem place_new {names : List CString} {name : CString} (h : place names name = none) :
    place (names ++ [name]) name = some (packed names).length := by
  induction names with
  | nil => simp [place, packed]
  | cons c names ih =>
      rw [place] at h
      split at h
      · cases h
      · rw [List.cons_append, place, if_neg ‹_›, ih (Option.map_eq_none_iff.mp h), packed_cons,
          List.length_append, CString.length_bytes]
        rfl

/-- A string is at its place. -/
theorem holds_place {f : ℕ → UInt8} {names : List CString} {name : CString} {a o : ℕ}
    (h : Holds f a (packed names)) (ho : place names name = some o) :
    Holds f (a + o) name.bytes ∧ o + name.length + 1 ≤ (packed names).length := by
  induction names generalizing a o with
  | nil => cases ho
  | cons c names ih =>
      rw [packed_cons] at h ⊢
      obtain ⟨hc, hn⟩ := holds_append.mp h
      rw [place] at ho
      rw [List.length_append, CString.length_bytes]
      split at ho
      case isTrue heq =>
        cases ho
        rw [← heq]
        exact ⟨hc, by omega⟩
      case isFalse =>
        obtain ⟨o', ho', rfl⟩ := Option.map_eq_some_iff.mp ho
        rw [CString.length_bytes] at hn
        obtain ⟨hh, hlen⟩ := ih hn ho'
        exact ⟨by rwa [Nat.add_assoc] at hh, by omega⟩

theorem Table.denotes {s : Syspage Sect} {names : List CString} {n : ℕ} (h : Table s names n)
    {name : CString} {o : ℕ} (ho : place names name = some o) : Denotes s o name := by
  obtain ⟨hh, hlen⟩ := holds_place (holds_append.mp h.bytes.holds).1 ho
  refine ⟨?_, hh⟩
  rw [h.bytes.size, List.length_append]
  omega

theorem Denotes.unique {s : Syspage Sect} {off : ℕ} {name name' : CString} (h : Denotes s off name)
    (h' : Denotes s off name') : name = name' :=
  CString.ext_chars (eq_of_holds name.nul_free name'.nul_free h.2 h'.2)

/-! ### The loop -/

theorem length_lt_packed {names : List CString} (hne : ∀ c ∈ names, c.chars ≠ []) :
    2 * names.length ≤ (packed names).length := by
  induction names with
  | nil => exact Nat.le_refl 0
  | cons c names ih =>
      have hc : c.length ≠ 0 := fun h0 =>
        hne c List.mem_cons_self (List.length_eq_zero_iff.mp h0)
      have := ih fun d hd => hne d (List.mem_cons_of_mem _ hd)
      rw [packed_cons, List.length_append, CString.length_bytes, List.length_cons]
      omega

/-- The loop finds the first string that is equal, or the end of the table. -/
theorem scanString_eq {f : ℕ → UInt8} {p n : ℕ} (size : ℕ) (name : CString) {names : List CString}
    (hne : ∀ c ∈ names, c.chars ≠ []) (hn : 0 < n) :
    ∀ i fuel, Holds f (p + i) (packed names ++ List.replicate n 0) → names.length < fuel →
      (packed names).length < size → i + (packed names).length < 2 ^ 32 →
      scanString f p size name fuel i = match place names name with
        | some o => some (.found (i + o))
        | none => some (.free (i + (packed names).length)) := by
  induction names with
  | nil =>
      intro i fuel h hf _ _
      obtain ⟨fuel, rfl⟩ := Nat.exists_eq_succ_of_ne_zero (by omega : fuel ≠ 0)
      obtain ⟨n, rfl⟩ := Nat.exists_eq_succ_of_ne_zero (by omega : n ≠ 0)
      have h0 : f (p + i) = 0 := (holds_cons.mp h).1
      rw [scanString, if_pos h0]
      rfl
  | cons c names ih =>
      intro i fuel h hf hsize hi
      obtain ⟨fuel, rfl⟩ := Nat.exists_eq_succ_of_ne_zero (by omega : fuel ≠ 0)
      rw [packed_cons, List.append_assoc] at h
      rw [packed_cons, List.length_append, CString.length_bytes] at hsize hi
      obtain ⟨hc, hrest⟩ := holds_append.mp h
      rw [CString.length_bytes, Nat.add_assoc] at hrest
      -- The string is not empty, so its first byte is not the end of the table.
      have hfirst : f (p + i) ≠ 0 := by
        obtain ⟨x, xs, hx⟩ := List.exists_cons_of_ne_nil (hne c List.mem_cons_self)
        have hnul := c.nul_free
        rw [hx, List.mem_cons, not_or] at hnul
        rw [CString.bytes, hx] at hc
        rw [(holds_cons.mp hc).1]
        exact fun h0 => hnul.1 h0.symm
      rw [scanString, if_neg hfirst, place]
      by_cases heq : c = name
      · rw [if_pos (streq_iff.mpr (by rw [← heq]; exact hc)), if_pos heq]
        rfl
      · have hneq : ¬ streq f name.chars (p + i) = true := fun hs =>
          heq (CString.ext_chars (eq_of_holds c.nul_free name.nul_free hc (streq_iff.mp hs)))
        have hlen : strlen f size (p + i) = c.length :=
          strlen_of_holds c.nul_free hc (by change c.length < size; omega)
        rw [if_neg hneq, if_neg heq, hlen, addW_of_lt (by omega),
          ih (fun d hd => hne d (List.mem_cons_of_mem _ hd)) _ _ hrest
            (by rw [List.length_cons] at hf; omega) (by omega) (by omega)]
        cases place names name with
        | none =>
            simp only [Option.map_none, packed_cons, List.length_append, CString.length_bytes]
            congr 2
            omega
        | some o =>
            simp only [Option.map_some]
            congr 2
            omega

/-! ### One call -/

variable {L : Layout}

/-- A string whose size does not wrap. -/
def CString.Short (name : CString) : Prop := name.length ≤ 2 ^ 31 - 256

theorem Table.length_lt {s : Syspage Sect} {names : List CString} {n : ℕ} (ht : Table s names n)
    (h : Limited L s) : (packed names).length + n ≤ 2 ^ 31 := by
  have := ht.bytes.length_le h
  rwa [List.length_append, List.length_replicate] at this

theorem Table.size {s : Syspage Sect} {names : List CString} {n : ℕ} (ht : Table s names n) :
    s.size (some .strings) = (packed names).length + n := by
  rw [ht.bytes.size, List.length_append, List.length_replicate]

/-- What the loop finds in a table. -/
theorem Table.scan {s : Syspage Sect} {names : List CString} {n : ℕ} (ht : Table s names n)
    (h : Limited L s) (name : CString) :
    scanString s.mem (s.p (some .strings)) (s.size (some .strings)) name
        (s.size (some .strings) + 1) 0 =
      match place names name with
      | some o => some (.found o)
      | none => some (.free (packed names).length) := by
  have hlt := ht.length_lt h
  have hpos := ht.pos
  have hcount := length_lt_packed ht.nonempty
  have hholds : Holds s.mem (s.p (some .strings) + 0) (packed names ++ List.replicate n 0) :=
    ht.bytes.holds
  have hscan := scanString_eq (s.size (some .strings)) name ht.nonempty ht.pos 0
    (s.size (some .strings) + 1) hholds (by rw [ht.size]; omega) (by rw [ht.size]; omega) (by omega)
  rw [hscan]
  cases place names name with
  | none => simp only [Nat.zero_add]
  | some o => simp only [Nat.zero_add]

/-- A section that is too short by `need - n` bytes is grown by enough chunks of 128. -/
theorem chunks_enough {n need : ℕ} (hneed : need ≤ 2 ^ 31 - 254) (hn : n < need) :
    need ≤ n + round 64 (subW 32 need n) 128 % 2 ^ 32 ∧
    round 64 (subW 32 need n) 128 % 2 ^ 32 ≤ 2 ^ 31 - 8 := by
  have hround : round 64 (need - n) 128 = (need - n + 127) / 128 * 128 :=
    round_two_pow (k := 7) (by decide) (by omega)
  rw [subW_of_le (by omega) (by omega), hround, Nat.mod_eq_of_lt (by omega)]
  omega

/-- The table with room for a string. -/
theorem Table.room (hL : L.Valid) {s : Syspage Sect} {names : List CString} {n : ℕ}
    (ht : Table s names n) (h : Limited L s) {name : CString} (hname : CString.Short name) :
    let grown := if subW 32 (s.size (some .strings)) (packed names).length < (name.length + 2) %
      2 ^ 32 then
        grow_syspage_section L (some .strings) (round 64 (subW 32 ((name.length + 2) % 2 ^ 32)
          (subW 32 (s.size (some .strings)) (packed names).length)) 128 % 2 ^ 32) s
      else .ok s
    grown = .error .syspage_overflow ∨ ∃ s₁ n₁, grown = .ok s₁ ∧ Limited L s₁ ∧ Table s₁ names n₁ ∧
      name.length + 2 ≤ n₁ ∧ s₁.p (some .strings) = s.p (some .strings) ∧
      ∀ i l, i ≠ .strings → HasBytes s i l → HasBytes s₁ i l := by
  have hlt := ht.length_lt h
  have hpos := ht.pos
  have hshort : name.length ≤ 2 ^ 31 - 256 := hname
  have hspare : subW 32 (s.size (some .strings)) (packed names).length = n := by
    rw [ht.size, subW_of_le (by omega) (by omega), Nat.add_sub_cancel_left]
  rw [hspare, Nat.mod_eq_of_lt (show name.length + 2 < 2 ^ 32 by omega)]
  have hneed : name.length + 2 ≤ 2 ^ 31 - 254 := by omega
  rcases h.room hL ht.bytes (chunks_enough hneed) with
    hover | ⟨s₁, n₁, hok, h₁, hb, hneed, hn, hp, hother⟩
  · exact .inl hover
  · exact .inr ⟨s₁, n₁, hok, h₁, ⟨hb, by omega, ht.nonempty⟩, hneed, hp, hother⟩

/-- A string is put behind the others; an empty one leaves no trace. -/
theorem Table.put (hL : L.Valid) {s : Syspage Sect} {names : List CString} {n : ℕ}
    (ht : Table s names n) (h : Limited L s) {name : CString} (hroom : name.length + 2 ≤ n) :
    let s' := s.written (s.p (some .strings) + (packed names).length) name.bytes
    Limited L s' ∧ (∃ n', Table s' (if name.chars = [] then names else names ++ [name]) n') ∧
      ∀ i l, i ≠ .strings → HasBytes s i l → HasBytes s' i l := by
  have hsplit : HasBytes s .strings (packed names ++ List.replicate (name.length + 1) 0 ++
      List.replicate (n - (name.length + 1)) 0) := by
    rw [List.append_assoc, List.replicate_append_replicate, Nat.add_sub_cancel' (by omega)]
    exact ht.bytes
  have hlen : (List.replicate (name.length + 1) (0 : UInt8)).length = name.bytes.length := by
    rw [List.length_replicate, CString.length_bytes]
  obtain ⟨hlim, hbytes, hother⟩ := h.write hL hsplit hlen
  refine ⟨hlim, ?_, hother⟩
  by_cases hempty : name.chars = []
  · have hzero : packed names ++ name.bytes ++ List.replicate (n - (name.length + 1)) 0 =
        packed names ++ List.replicate n 0 := by
      have hbytes : name.bytes = List.replicate (name.length + 1) 0 := by
        rw [CString.bytes, CString.length, hempty]
        rfl
      rw [hbytes, List.append_assoc, List.replicate_append_replicate,
        Nat.add_sub_cancel' (by omega)]
    rw [hzero] at hbytes
    refine ⟨n, ?_⟩
    rw [if_pos hempty]
    exact ⟨hbytes, ht.pos, ht.nonempty⟩
  · refine ⟨n - (name.length + 1), ?_⟩
    rw [if_neg hempty]
    refine ⟨?_, by omega, fun c hc => ?_⟩
    · have hone : packed [name] = name.bytes := List.append_nil _
      rw [packed_append, hone]
      exact hbytes
    · rcases List.mem_append.mp hc with hc | hc
      · exact ht.nonempty c hc
      · rw [List.mem_singleton.mp hc]
        exact hempty

/-- **One call** of `add_string`: the page overflows, or the string is in the table. -/
theorem add_string_spec (hL : L.Valid) {s : Syspage Sect} {names : List CString} {n : ℕ}
    (ht : Table s names n) (h : Limited L s) {name : CString} (hname : CString.Short name) :
    add_string L name s = .error .syspage_overflow ∨ ∃ off s' names' n',
      add_string L name s = .ok (off, s') ∧ Limited L s' ∧ Table s' names' n' ∧ names <+: names' ∧
      (name.chars ≠ [] → place names' name = some off) ∧
      ∀ i l, i ≠ .strings → HasBytes s i l → HasBytes s' i l := by
  have hlt := ht.length_lt h
  have hscan := ht.scan h name
  cases hplace : place names name with
  | some o =>
      rw [hplace] at hscan
      refine .inr ⟨o, s, names, n, ?_, h, ht, List.prefix_rfl, fun _ => hplace, fun _ _ _ hb => hb⟩
      simp only [add_string, hscan]
  | none =>
      rw [hplace] at hscan
      have hadd : add_string L name s = (do
          let s₁ ← (if subW 32 (s.size (some .strings)) (packed names).length <
              (name.length + 2) % 2 ^ 32 then
            grow_syspage_section L (some .strings) (round 64 (subW 32 ((name.length + 2) % 2 ^ 32)
              (subW 32 (s.size (some .strings)) (packed names).length)) 128 % 2 ^ 32) s
            else .ok s)
          return ((packed names).length, { s₁ with
            mem := (strlcpy (s.p (some .strings) + (packed names).length) name.chars
              (subW 32 (s₁.size (some .strings)) (packed names).length) s₁.mem) })) := by
        simp only [add_string, hscan]
      rcases ht.room hL h hname with hover | ⟨s₁, n₁, hok, h₁, ht₁, hn₁, hp, hother⟩
      · refine .inl ?_
        rw [hadd, hover]
        rfl
      · have hlt₁ := ht₁.length_lt h₁
        have hcopy : strlcpy (s.p (some .strings) + (packed names).length) name.chars
            (subW 32 (s₁.size (some .strings)) (packed names).length) s₁.mem =
              write (s₁.p (some .strings) + (packed names).length) name.bytes s₁.mem := by
          rw [ht₁.size, subW_of_le (by omega) (by omega), Nat.add_sub_cancel_left, hp]
          exact strlcpy_of_lt (by change name.length < n₁; omega) _
        obtain ⟨hlim, ⟨n', ht'⟩, hother'⟩ := ht₁.put hL h₁ hn₁
        refine .inr ⟨(packed names).length, _, _, n', ?_, hlim, ht', ?_, fun hne =>
          ?_, fun i l hi hb =>
          hother' i l hi (hother i l hi hb)⟩
        · rw [hadd, hok]
          change Except.ok _ = Except.ok _
          rw [hcopy]
          rfl
        · split
          · exact List.prefix_rfl
          · exact List.prefix_append _ _
        · rw [if_neg hne]
          exact place_new hplace

/-- The page stays within its limit. -/
theorem add_string_sizes (hL : L.Valid) {s s' : Syspage Sect} {names : List CString} {n off : ℕ}
    (ht : Table s names n) (h : Limited L s) {name : CString} (hname : CString.Short name)
    (hadd : add_string L name s = .ok (off, s')) :
    s'.max_size L = s.max_size L ∧
    (s'.total_size L = s.total_size L ∨ s'.total_size L ≤ s.max_size L) := by
  have hlt := ht.length_lt h
  have hshort : name.length ≤ 2 ^ 31 - 256 := hname
  have hspare : subW 32 (s.size (some .strings)) (packed names).length = n := by
    rw [ht.size, subW_of_le (by omega) (by omega), Nat.add_sub_cancel_left]
  have hscan := ht.scan h name
  cases hplace : place names name with
  | some o =>
      rw [hplace] at hscan
      simp only [add_string, hscan] at hadd
      cases hadd
      exact ⟨rfl, .inl rfl⟩
  | none =>
      rw [hplace] at hscan
      simp only [add_string, hscan, hspare,
        Nat.mod_eq_of_lt (show name.length + 2 < 2 ^ 32 by omega)] at hadd
      obtain ⟨s₁, hs₁, hadd⟩ := bind_eq_ok.mp hadd
      cases hadd
      -- what is copied is behind the header
      have hgrown : Limited L s₁ ∧ s₁.p (some .strings) = s.p (some .strings) ∧
          s₁.max_size L = s.max_size L ∧
          (s₁.total_size L = s.total_size L ∨ s₁.total_size L ≤ s.max_size L) := by
        split at hs₁
        · have hchunks := (chunks_enough (by omega) ‹n < name.length + 2›).2
          obtain ⟨h₁, g, -⟩ := h.grown hL hchunks hs₁
          exact ⟨h₁, g.p_self, h.grow_sizes hL hchunks hs₁⟩
        · cases hs₁
          exact ⟨h, rfl, rfl, .inl rfl⟩
      obtain ⟨h₁, hp, hsizes⟩ := hgrown
      unfold strlcpy
      split
      · exact hsizes
      · have hle : s₁.p (some .strings) ≤ s.p (some .strings) + (packed names).length :=
          hp ▸ Nat.le_add_right _ _
        obtain ⟨htotal, hmax⟩ := h₁.written_sizes hL hle
          (name.chars.take (subW 32 (s₁.size (some .strings)) (packed names).length - 1) ++ [0])
        have htotal' : Syspage.total_size L _ = s₁.total_size L := htotal
        have hmax' : Syspage.max_size L _ = s₁.max_size L := hmax
        rw [← htotal', ← hmax'] at hsizes
        exact hsizes

/-! ### Runs -/

/-- Calls of `add_string`, for strings that `C` allows, among other calls on the page; the list has
the strings and what was returned for them. -/
inductive StringRun (L : Layout) (C : CString → Prop) (s₀ : Syspage Sect) :
    Syspage Sect → List (CString × ℕ) → Prop where
  | start : StringRun L C s₀ s₀ []
  | add {s s' : Syspage Sect} {calls : List (CString × ℕ)} {name : CString} {off : ℕ} :
      StringRun L C s₀ s calls → C name → add_string L name s = .ok (off, s') →
      StringRun L C s₀ s' ((name, off) :: calls)
  | page {s s' : Syspage Sect} {calls : List (CString × ℕ)} :
      StringRun L C s₀ s calls → PageStep L s s' → StringRun L C s₀ s' calls

/-- What the callers rely on. -/
structure Interned (s : Syspage Sect) (calls : List (CString × ℕ)) : Prop where
  denotes : ∀ c ∈ calls, Denotes s c.2 c.1
  same_iff : ∀ c ∈ calls, ∀ d ∈ calls, c.2 = d.2 ↔ c.1 = d.1
  terminated : ∃ names n, Table s names n

theorem Table.grows {s s' : Syspage Sect} {names : List CString} {n : ℕ} (ht : Table s names n)
    (hb : ∀ l, HasBytes s .strings l → ∃ m, HasBytes s' .strings (l ++ List.replicate m 0)) :
    ∃ n', Table s' names n' := by
  obtain ⟨m, hm⟩ := hb _ ht.bytes
  rw [List.append_assoc, List.replicate_append_replicate] at hm
  exact ⟨n + m, hm, Nat.add_pos_left ht.pos m, ht.nonempty⟩

/-- Every string of the run has its place in the table. -/
def Placed (L : Layout) (s : Syspage Sect) (calls : List (CString × ℕ)) : Prop :=
  ∃ names n, Limited L s ∧ Table s names n ∧ ∀ c ∈ calls, place names c.1 = some c.2

theorem Placed.interned {s : Syspage Sect} {calls : List (CString × ℕ)} (h : Placed L s calls) :
    Interned s calls := by
  obtain ⟨names, n, _, ht, hcalls⟩ := h
  refine ⟨fun c hc => ht.denotes (hcalls c hc), fun c hc d hd =>
    ⟨fun heq => ?_, fun heq => ?_⟩, names, n, ht⟩
  · have hd' := ht.denotes (hcalls d hd)
    rw [← heq] at hd'
    exact (ht.denotes (hcalls c hc)).unique hd'
  · have hplace := hcalls c hc
    rw [heq, hcalls d hd] at hplace
    exact (Option.some.inj hplace).symm

theorem Placed.add (hL : L.Valid) {s s' : Syspage Sect} {calls : List (CString × ℕ)}
    {name : CString}
    {off : ℕ} (h : Placed L s calls) (hname : name.chars ≠ []) (hshort : CString.Short name)
    (hadd : add_string L name s = .ok (off, s')) : Placed L s' ((name, off) :: calls) := by
  obtain ⟨names, n, hlim, ht, hcalls⟩ := h
  rcases add_string_spec hL ht hlim hshort with
    hover | ⟨off', s'', names', n', hok, hlim', ht', hsub, hplace, _⟩
  · rw [hadd] at hover
    cases hover
  · rw [hadd] at hok
    cases hok
    obtain ⟨more, rfl⟩ := hsub
    refine ⟨_, n', hlim', ht', fun c hc => ?_⟩
    rcases List.mem_cons.mp hc with rfl | hc
    · exact hplace hname
    · exact place_append (hcalls c hc) more

theorem Placed.page (hL : L.Valid) {s s' : Syspage Sect} {calls : List (CString × ℕ)}
    (h : Placed L s calls) (hstep : PageStep L s s') : Placed L s' calls := by
  obtain ⟨names, n, hlim, ht, hcalls⟩ := h
  obtain ⟨hlim', hbytes⟩ := hstep.limited hL hlim
  obtain ⟨n', ht'⟩ := ht.grows (hbytes .strings)
  exact ⟨names, n', hlim', ht', hcalls⟩

/-- A string that `add_string` can be given: one that is not empty, and whose size does not wrap. -/
def CString.Proper (name : CString) : Prop := name.chars ≠ [] ∧ CString.Short name

theorem StringRun.placed (hL : L.Valid) {s₀ s : Syspage Sect} {calls : List (CString × ℕ)}
    (h₀ : Placed L s₀ []) (hrun : StringRun L CString.Proper s₀ s calls) : Placed L s calls := by
  induction hrun with
  | start => exact h₀
  | add _ hname hadd ih => exact ih.add hL hname.1 hname.2 hadd
  | page _ hstep ih => exact ih.page hL hstep

/-- **Offsets keep their strings.**  From the page as it is set up, whatever strings are added and
whatever other calls are made on the page, as long as no string is empty: every offset that was
returned denotes the string it was returned for, two are the same when the strings are, the table
ends with an empty string inside the section, and a call returns unless the page overflows. -/
theorem string_run (hL : L.Valid) (hsp : L.spsize ≤ 2 ^ 31) {prefix_size : ℕ}
    (hp : prefix_size ≤ 2 ^ 31 - 8)
    {s₀ s : Syspage Sect} {calls : List (CString × ℕ)} (hs₀ : InitPage L prefix_size s₀)
    (hrun : StringRun L CString.Proper s₀ s calls) :
    Interned s calls ∧ ∀ name, CString.Proper name →
      add_string L name s = .error .syspage_overflow ∨
      ∃ off s', add_string L name s = .ok (off, s') := by
  obtain ⟨hlim₀, _, hzeros, _⟩ := hs₀.spec hL hsp hp
  have hstart : Placed L s₀ [] :=
    ⟨[], 8, hlim₀, ⟨hzeros, by decide, fun c hc => absurd hc List.not_mem_nil⟩, fun c hc =>
      absurd hc List.not_mem_nil⟩
  have hplaced := hrun.placed hL hstart
  refine ⟨hplaced.interned, fun name hname => ?_⟩
  obtain ⟨names, n, hlim, ht, _⟩ := hplaced
  rcases add_string_spec hL ht hlim hname.2 with hover | ⟨off, s', _, _, hok, _⟩
  · exact .inl hover
  · exact .inr ⟨off, s', hok⟩

/-- A page with small fixed sections. -/
def stringsPage : Except Crash (Syspage Sect) :=
  init_sections smallLayout 8 8 4
    (init_syspage_memory smallLayout 0x1000 0x800 ⟨fun _ => 0xff, fun _ => ⟨0, 0⟩, 0, []⟩)

theorem smallLayout_valid : smallLayout.Valid :=
  ⟨by decide, by decide, by decide, by decide, by decide, by decide⟩

theorem stringsPage_init {s : Syspage Sect} (h : stringsPage = .ok s) : InitPage smallLayout 4 s :=
  ⟨0x1000, 0x800, 8, 8, _, by decide, by decide, by decide, by decide, by decide, h⟩

def emptyString : CString := ⟨[], List.not_mem_nil⟩

/-- "a". -/
def shortString : CString := ⟨[0x61], by decide⟩

/-- "strings". -/
def longString : CString := ⟨[0x73, 0x74, 0x72, 0x69, 0x6e, 0x67, 0x73], by decide⟩

/-- Two strings are added, the second one in a section that grows. -/
theorem string_run_two : ∃ s₀ s, stringsPage = .ok s₀ ∧
    StringRun smallLayout CString.Proper s₀ s [(longString, 2), (shortString, 0)] ∧
    Interned s [(longString, 2), (shortString, 0)] := by
  have hrun : (do
      let s ← stringsPage
      let (o₁, s) ← add_string smallLayout shortString s
      let (o₂, _) ← add_string smallLayout longString s
      return (o₁, o₂)).toOption = some (0, 2) := by decide +kernel
  obtain ⟨s₀, hs₀, hrun⟩ := bind_eq_ok.mp (toOption_eq_some.mp hrun)
  obtain ⟨⟨o₁, s₁⟩, hs₁, hrun⟩ := bind_eq_ok.mp hrun
  obtain ⟨⟨o₂, s₂⟩, hs₂, hrun⟩ := bind_eq_ok.mp hrun
  cases hrun
  have hadds : StringRun smallLayout CString.Proper s₀ s₂ [(longString, 2), (shortString, 0)] :=
    .add (.add .start ⟨by decide, by unfold CString.Short; decide⟩ hs₁)
      ⟨by decide, by unfold CString.Short; decide⟩ hs₂
  exact ⟨s₀, s₂, hs₀, hadds,
    (string_run smallLayout_valid (by decide) (by decide) (stringsPage_init hs₀) hadds).1⟩

/-- The empty string is given the end of the table, and the next string is put there: the offset
that was returned for the one denotes the other, and the two have the same. -/
theorem empty_string_renamed : ∃ s₀ s, stringsPage = .ok s₀ ∧
    StringRun smallLayout CString.Short s₀ s [(shortString, 0), (emptyString, 0)] ∧
    ¬ Interned s [(shortString, 0), (emptyString, 0)] := by
  have hrun : (do
      let s ← stringsPage
      let (o₁, s) ← add_string smallLayout emptyString s
      let (o₂, _) ← add_string smallLayout shortString s
      return (o₁, o₂)).toOption = some (0, 0) := by decide +kernel
  obtain ⟨s₀, hs₀, hrun⟩ := bind_eq_ok.mp (toOption_eq_some.mp hrun)
  obtain ⟨⟨o₁, s₁⟩, hs₁, hrun⟩ := bind_eq_ok.mp hrun
  obtain ⟨⟨o₂, s₂⟩, hs₂, hrun⟩ := bind_eq_ok.mp hrun
  cases hrun
  refine ⟨s₀, s₂, hs₀, .add (.add .start ?_ hs₁) ?_ hs₂, fun h => ?_⟩
  · unfold CString.Short
    decide
  · unfold CString.Short
    decide
  · have hsame := (h.same_iff (shortString, 0) (by simp) (emptyString, 0) (by simp)).mp rfl
    exact absurd hsame (by decide)

end Startup
