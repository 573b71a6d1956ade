import RpiBsp.Wdtkick.Definitions

/-!
# Wdtkick — the registers in hwinfo

`wd_parse_hwinfo` reads the registers to kick from the tags of an item: an offset for each, and its
value, whole or in two halves.  `Table` says which sequences of tags are a table of registers, and
which one; what counts as a value is a parameter, as the program takes a half for a value of its
own.

* `Group.stored`, `readTags_eq_none` — the program reads one group after the other, of those that it
knows;
* `readTags_iff` — and so a table of them;
* `touches_lt` — it stays inside `write_reg`;
* `wd_parse_hwinfo_iff` — **main**: it reads what it should exactly for the tags that have no
  halves, and for those that neither it nor anybody else takes for a table.
-/

namespace Wdtkick

open Support

/-! ### Tables of registers -/

section Table

variable {ν : Type}

/-- The first register of a table, and the tags behind it.  `part` is a value at the head of some
tags, and `missing` what a register has without one.  A value behind an offset is the value of that
offset. -/
inductive Group (part : List Tag → ν → List Tag → Prop) (missing : Option ν) :
    List Tag → ℕ × ν → List Tag → Prop where
  | after {o : Tag} {tags rest : List Tag} {v : ν} : o.regname = "offset".toList →
      part tags v rest →
      Group part missing (o :: tags) (u32 o.offset, v) rest
  | before {o : Tag} {tags rest : List Tag} {v : ν} : part tags v (o :: rest) →
      o.regname = "offset".toList →
      Group part missing tags (u32 o.offset, v) rest
  | bare {o : Tag} {tags : List Tag} {v : ν} : o.regname = "offset".toList → missing = some v →
      (∀ v' rest, ¬ part tags v' rest) → Group part missing (o :: tags) (u32 o.offset, v) tags

/-- The tags of a table, with its registers. -/
inductive Table (part : List Tag → ν → List Tag → Prop) (missing : Option ν) :
    List Tag → List (ℕ × ν) → Prop where
  | nil : Table part missing [] []
  | cons {tags rest : List Tag} {g : ℕ × ν} {gs : List (ℕ × ν)} : Group part missing tags g rest →
      Table part missing rest gs → Table part missing tags (g :: gs)

end Table

/-- A value as it is meant: one tag, or the lower half and the upper one. -/
inductive Whole : List Tag → ℕ → List Tag → Prop where
  | value {t : Tag} {rest : List Tag} : t.regname = "value".toList →
      Whole (t :: rest) (u32 t.offset) rest
  | pair {lo hi : Tag} {rest : List Tag} : lo.regname = "value32_lo".toList →
      hi.regname = "value32_hi".toList →
      Whole (lo :: hi :: rest) (u32 (u32 hi.offset * 2 ^ 16) ||| u32 lo.offset) rest

/-- A value as the program takes it: any tag of one. -/
inductive Alone : List Tag → Option Tag → List Tag → Prop where
  | tag {t : Tag} {rest : List Tag} : isValue t.regname → Alone (t :: rest) (some t) rest

/-- A register whose bits are swapped needs no value. -/
def Operation.missing {ν : Type} (v : ν) : Operation → Option ν
  | .BITSWAP => some v
  | .WRITE => none

/-- The table that an item is meant to be. -/
def Meant (op : Operation) : List Tag → List (ℕ × ℕ) → Prop := Table Whole (op.missing 0xFFFFFFFF)

/-- The table that the program takes it for. -/
def Taken (op : Operation) : List Tag → List (ℕ × Option Tag) → Prop :=
  Table Alone (op.missing none)

/-- The lower half of a value leaves the place of its register to the next one. -/
def weight (g : ℕ × Option Tag) : ℕ :=
  match g.2 with
  | some t => if t.regname = "value32_lo".toList then 0 else 1
  | none => 1

/-- There is room for the registers when `n` have been read. -/
def Fits : ℕ → List (ℕ × Option Tag) → Prop
  | _, [] => True
  | n, g :: gs => n < MAX_NUM_REG ∧ Fits (n + weight g) gs

/-- No halves. -/
def Plain (tags : List Tag) : Prop :=
  ∀ t ∈ tags, t.regname ≠ "value32_lo".toList ∧ t.regname ≠ "value32_hi".toList

instance (tags : List Tag) : Decidable (Plain tags) := inferInstanceAs (Decidable (∀ t ∈ tags, _))

/-- What is stored for a register that is no half. -/
def entry (g : ℕ × Option Tag) : ℕ × ℕ := (g.1, (g.2.map fun t => u32 t.offset).getD 0xFFFFFFFF)

/-! ### The program -/

/-- From some place on. -/
def readTags (s : Place × Wdt) (tags : List Tag) : Option Wdt :=
  (tags.foldlM tagStep s).bind tagsEnd

theorem readTags_cons (s : Place × Wdt) (t : Tag) (tags : List Tag) :
    readTags s (t :: tags) = (tagStep s t).bind fun s => readTags s tags := by
  unfold readTags
  rw [List.foldlM_cons]
  cases tagStep s t <;> rfl

/-- What a group leaves. -/
structure Stored (w w' : Wdt) (g : ℕ × Option Tag) : Prop where
  operation : w'.operation = w.operation
  increment_index : w'.increment_index = true
  num_writes : w'.num_writes = w.num_writes + weight g
  kept : ∀ i, i ≠ w.num_writes → w'.write_reg i = w.write_reg i
  entry : (∀ t ∈ g.2, t.regname = "value".toList) → w'.write_reg w.num_writes = entry g

theorem isValue_ne_offset {name : Text} (h : isValue name) : name ≠ "offset".toList := by
  rcases h with rfl | rfl | rfl <;> decide

/-- What is stored for a value, at its place. -/
theorem storeValue_eq {t : Tag} (h : isValue t.regname) (w : Wdt) :
    ∃ n, (t.regname = "value".toList → n = u32 t.offset) ∧ storeValue t w =
      { w.setVal n with increment_index := if t.regname = "value32_lo".toList then false
        else w.increment_index } := by
  unfold storeValue
  rcases h with h | h | h
  · exact ⟨u32 t.offset, fun _ => rfl, by rw [if_pos h, if_neg (by rw [h]; decide)]; rfl⟩
  · exact ⟨u32 t.offset, fun _ => rfl, by rw [if_neg (by rw [h]; decide), if_pos h, if_pos h]⟩
  · refine ⟨(w.write_reg w.num_writes).2 ||| u32 (u32 t.offset * 2 ^ 16), fun h' => ?_, ?_⟩
    · exact absurd (h.symm.trans h') (by decide)
    · rw [if_neg (by rw [h]; decide), if_neg (by rw [h]; decide), if_neg (by rw [h]; decide)]
      rfl

section Stores

variable (w : Wdt) (n : ℕ)

@[simp] theorem setOffset_same :
    (w.setOffset n).write_reg w.num_writes = (n, (w.write_reg w.num_writes).2) := if_pos rfl

@[simp] theorem setVal_same :
    (w.setVal n).write_reg w.num_writes = ((w.write_reg w.num_writes).1, n) := if_pos rfl

theorem setOffset_other {i : ℕ} (h : i ≠ w.num_writes) :
    (w.setOffset n).write_reg i = w.write_reg i := if_neg h

theorem setVal_other {i : ℕ} (h : i ≠ w.num_writes) : (w.setVal n).write_reg i = w.write_reg i :=
  if_neg h

@[simp] theorem setOffset_num_writes : (w.setOffset n).num_writes = w.num_writes := rfl

@[simp] theorem setVal_num_writes : (w.setVal n).num_writes = w.num_writes := rfl

/-- The last value counts, and the offset may come after it. -/
theorem setVal_setVal_setOffset (m k : ℕ) :
    (((w.setVal n).setVal m).setOffset k).write_reg = ((w.setOffset k).setVal m).write_reg := by
  funext i
  by_cases hi : i = w.num_writes
  · simp [Wdt.setOffset, Wdt.setVal, hi]
  · simp [Wdt.setOffset, Wdt.setVal, hi]

end Stores

/-- A group that was stored with one value, at the end of the body of the loop. -/
theorem stored_bump {w v : Wdt} {o t : Tag} {n : ℕ}
    (hn : t.regname = "value".toList → n = u32 t.offset)
    (hop : v.operation = w.operation) (hnum : v.num_writes = w.num_writes)
    (hinc : v.increment_index = if t.regname = "value32_lo".toList then false else true)
    (hreg : v.write_reg = ((w.setOffset (u32 o.offset)).setVal n).write_reg) :
    Stored w (bump v) (u32 o.offset, some t) := by
  have hkept : ∀ i, i ≠ w.num_writes → v.write_reg i = w.write_reg i := by
    intro i hi
    rw [hreg]
    exact (setVal_other (w.setOffset (u32 o.offset)) n hi).trans (setOffset_other w _ hi)
  have hentry : v.write_reg w.num_writes = (u32 o.offset, n) := by
    rw [hreg]
    exact (setVal_same (w.setOffset (u32 o.offset)) n).trans
      (by rw [setOffset_num_writes, setOffset_same])
  by_cases hlo : t.regname = "value32_lo".toList
  · rw [if_pos hlo] at hinc
    have hbump : bump v = { v with increment_index := true } := if_neg (by rw [hinc]; decide)
    rw [hbump]
    refine ⟨hop, rfl, ?_, hkept, fun h => ?_⟩
    · show v.num_writes = w.num_writes + if _ then 0 else 1
      rw [if_pos hlo, hnum]
      rfl
    · exact absurd (hlo.symm.trans (h t rfl)) (by decide)
  · rw [if_neg hlo] at hinc
    have hbump : bump v = { v with num_writes := v.num_writes + 1 } := if_pos hinc
    rw [hbump]
    refine ⟨hop, hinc, ?_, hkept, fun h => ?_⟩
    · show v.num_writes + 1 = w.num_writes + if _ then 0 else 1
      rw [if_neg hlo, hnum]
    · show v.write_reg w.num_writes = (u32 o.offset, u32 t.offset)
      rw [hentry, hn (h t rfl)]

/-- An offset without a value, where it needs none. -/
def missing (w : Wdt) : Wdt := { w.setVal 0xFFFFFFFF with num_writes := w.num_writes + 1 }

/-- What follows such an offset is read as the head of the loop reads it. -/
theorem readTags_missing {w : Wdt} (hop : w.operation = some .BITSWAP) {tags : List Tag}
    (hnone : ∀ v rest, ¬ Alone tags v rest) :
    readTags (.afterOffset, w) tags = readTags (.head, missing w) tags := by
  cases tags with
  | nil => exact if_pos hop
  | cons t tags =>
      have hvalue : ¬ isValue t.regname := fun h => hnone _ _ (.tag h)
      rw [readTags_cons, readTags_cons]
      congr 1
      by_cases ht : t.regname = "offset".toList
      · simp only [tagStep, if_neg hvalue, if_pos ht, if_pos hop, missing]
      · simp only [tagStep, if_neg hvalue, if_neg ht, ite_self]

/-- **A group is read**: the program goes on behind it, with the register stored. -/
theorem Group.stored {op : Operation} {tags rest : List Tag} {g : ℕ × Option Tag}
    (h : Group Alone (op.missing none) tags g rest) {w : Wdt} (hop : w.operation = some op)
    (hinc : w.increment_index = true) (hlt : w.num_writes < MAX_NUM_REG) :
    ∃ w', Stored w w' g ∧ readTags (.head, w) tags = readTags (.head, w') rest := by
  have hroom : ¬ w.num_writes ≥ MAX_NUM_REG := Nat.not_le.mpr hlt
  have hoffset {o : Tag} (ho : o.regname = "offset".toList) :
      tagStep (.head, w) o = some (.afterOffset, storeOffset o w) := by
    simp only [tagStep, if_neg hroom, if_pos ho]
  cases h with
  | @after o tags _ _ ho hpart =>
      cases hpart with
      | @tag t _ ht =>
          obtain ⟨n, hn, hstore⟩ := storeValue_eq ht (storeOffset o w)
          refine ⟨bump (storeValue t (storeOffset o w)), stored_bump hn ?_ ?_ ?_ ?_, ?_⟩
          · rw [hstore]
            rfl
          · rw [hstore]
            rfl
          · rw [hstore]
            exact congrArg (if t.regname = _ then false else ·) hinc
          · rw [hstore]
            rfl
          · have hvalue : tagStep (.afterOffset, storeOffset o w) t =
                some (.head, bump (storeValue t (storeOffset o w))) :=
              if_pos ht
            rw [readTags_cons, hoffset ho, Option.bind_some, readTags_cons, hvalue,
              Option.bind_some]
  | @before o _ _ _ hpart ho =>
      cases hpart with
      | @tag t _ ht =>
          obtain ⟨n, -, hstore⟩ := storeValue_eq ht w
          refine ⟨bump (storeOffset o ((storeValue t w).setVal (u32 t.offset))),
            stored_bump (fun _ => rfl) ?_ ?_ ?_ ?_, ?_⟩
          · rw [hstore]
            rfl
          · rw [hstore]
            rfl
          · rw [hstore]
            exact congrArg (if t.regname = _ then false else ·) hinc
          · rw [hstore]
            exact setVal_setVal_setOffset w n (u32 t.offset) (u32 o.offset)
          · have hvalue : tagStep (.head, w) t =
                some (.afterValue, (storeValue t w).setVal (u32 t.offset)) := by
              simp only [tagStep, if_neg hroom, if_neg (isValue_ne_offset ht), if_pos ht]
            have hnext : tagStep (.afterValue, (storeValue t w).setVal (u32 t.offset)) o =
                some (.head, bump (storeOffset o ((storeValue t w).setVal (u32 t.offset)))) :=
              if_pos ho
            rw [readTags_cons, hvalue, Option.bind_some, readTags_cons, hnext, Option.bind_some]
  | @bare o _ _ ho hmissing hnone =>
      obtain rfl : op = .BITSWAP := by
        cases op with
        | BITSWAP => rfl
        | WRITE => cases hmissing
      obtain rfl := Option.some.inj hmissing
      refine ⟨missing (storeOffset o w), ⟨rfl, hinc, rfl, fun i hi => ?_, fun _ => ?_⟩, ?_⟩
      · exact (setVal_other (storeOffset o w) _ hi).trans (setOffset_other w _ hi)
      · exact (setVal_same (storeOffset o w) _).trans
          (congrArg (fun p : ℕ × ℕ => (p.1, 0xFFFFFFFF)) (setOffset_same w (u32 o.offset)))
      · rw [readTags_cons, hoffset ho, Option.bind_some]
        exact @readTags_missing (storeOffset o w) hop _ hnone

/-- What has no group at its head is refused, and so is any tag when there is no more room. -/
theorem readTags_eq_none {op : Operation} {w : Wdt} (hop : w.operation = some op) {tags : List Tag}
    (hne : tags ≠ [])
    (h : w.num_writes < MAX_NUM_REG → ∀ g rest, ¬ Group Alone (op.missing none) tags g rest) :
    readTags (.head, w) tags = none := by
  obtain ⟨t, tags, rfl⟩ := List.exists_cons_of_ne_nil hne
  rw [readTags_cons]
  by_cases hroom : w.num_writes ≥ MAX_NUM_REG
  · rw [show tagStep (.head, w) t = none from if_pos hroom]
    rfl
  have hno := h (Nat.not_le.mp hroom)
  by_cases hoffset : t.regname = "offset".toList
  · -- an offset that is no register: its value is needed, and is not there
    have hnone : ∀ v rest, ¬ Alone tags v rest := fun v rest hpart => hno _ _ (.after hoffset hpart)
    have hwrite : op = .WRITE := by
      cases op with
      | BITSWAP => exact absurd (Group.bare hoffset rfl hnone) (hno _ _)
      | WRITE => rfl
    have hop' : ¬ (storeOffset t w).operation = some .BITSWAP := by
      rw [show (storeOffset t w).operation = some op from hop, hwrite]
      decide
    simp only [tagStep, if_neg hroom, if_pos hoffset, Option.bind_some]
    cases tags with
    | nil => exact if_neg hop'
    | cons t' tags =>
        have hvalue : ¬ isValue t'.regname := fun ht' => hnone _ _ (.tag ht')
        rw [readTags_cons]
        simp only [tagStep, if_neg hvalue, if_neg hop', ite_self, Option.bind_none]
  · by_cases hvalue : isValue t.regname
    · simp only [tagStep, if_neg hroom, if_neg hoffset, if_pos hvalue, Option.bind_some]
      cases tags with
      | nil => rfl
      | cons o tags =>
          have ho : ¬ o.regname = "offset".toList := fun ho => hno _ _ (.before (.tag hvalue) ho)
          rw [readTags_cons]
          simp only [tagStep, if_neg ho, Option.bind_none]
    · simp only [tagStep, if_neg hroom, if_neg hoffset, if_neg hvalue, Option.bind_none]

theorem Group.length_lt {m : Option (Option Tag)} {tags rest : List Tag} {g : ℕ × Option Tag}
    (h : Group Alone m tags g rest) : rest.length < tags.length := by
  cases h with
  | after _ hpart =>
      cases hpart with
      | tag => exact Nat.lt_add_right 1 (Nat.lt_succ_self _)
  | before hpart _ =>
      cases hpart with
      | tag => exact Nat.lt_add_right 1 (Nat.lt_succ_self _)
  | bare => exact Nat.lt_succ_self _

/-- One more register was stored. -/
theorem Stored.entries {w w' : Wdt} {g : ℕ × Option Tag} (h : Stored w w' g)
    (hg : ∀ t ∈ g.2, t.regname = "value".toList) :
    (List.range w'.num_writes).map w'.write_reg = (List.range w.num_writes).map w.write_reg ++
      [Wdtkick.entry g] := by
  have hweight : weight g = 1 := by
    obtain ⟨o, t⟩ := g
    cases t with
    | none => rfl
    | some t => exact if_neg (by rw [hg t rfl]; decide)
  rw [h.num_writes, hweight, List.range_succ, List.map_append, List.map_singleton, h.entry hg]
  congr 1
  exact List.map_congr_left fun i hi => h.kept i (List.mem_range.mp hi).ne

/-- A table that is taken for one is read. -/
theorem readTags_taken {op : Operation} {tags : List Tag} {gs : List (ℕ × Option Tag)}
    (h : Taken op tags gs) :
    ∀ {w : Wdt}, w.operation = some op → w.increment_index = true → Fits w.num_writes gs →
      ∃ w', readTags (.head, w) tags = some w' ∧
        w'.num_writes = w.num_writes + (gs.map weight).sum ∧
        ((∀ g ∈ gs, ∀ t ∈ g.2, t.regname = "value".toList) →
          (List.range w'.num_writes).map w'.write_reg = (List.range w.num_writes).map w.write_reg ++
            gs.map entry) := by
  induction h with
  | nil => exact fun {w} _ _ _ => ⟨w, rfl, rfl, fun _ => (List.append_nil _).symm⟩
  | @cons tags rest g gs hg _ ih =>
      intro w hop hinc hfits
      obtain ⟨hlt, hfits⟩ := hfits
      obtain ⟨w₁, hstored, hread⟩ := hg.stored hop hinc hlt
      obtain ⟨w', hw', hnum, hentries⟩ :=
        ih (hstored.operation.trans hop) hstored.increment_index (hstored.num_writes ▸ hfits)
      refine ⟨w', hread.trans hw', ?_, fun hplain => ?_⟩
      · rw [hnum, hstored.num_writes, List.map_cons, List.sum_cons, Nat.add_assoc]
      · have hfirst : ∀ t ∈ g.2, t.regname = "value".toList := hplain g List.mem_cons_self
        rw [hentries fun g' hg' => hplain g' (List.mem_cons_of_mem g hg'), hstored.entries hfirst,
          List.append_assoc]
        rfl

/-- What is read is a table that is taken for one, with room for it. -/
theorem taken_of_readTags {op : Operation} {tags : List Tag} :
    ∀ {w w' : Wdt}, w.operation = some op →
    w.increment_index = true → readTags (.head, w) tags = some w' → ∃ gs, Taken op tags gs ∧
    Fits w.num_writes gs := by
  induction hn : tags.length using Nat.strong_induction_on generalizing tags with
  | _ n ih =>
    intro w w' hop hinc hread
    by_cases hnil : tags = []
    · exact ⟨[], hnil ▸ .nil, trivial⟩
    have hgroup : w.num_writes < MAX_NUM_REG ∧
        ∃ g rest, Group Alone (op.missing none) tags g rest := by
      by_contra hno
      have hnone := readTags_eq_none hop hnil fun hlt g rest hg => hno ⟨hlt, g, rest, hg⟩
      exact absurd (hnone.symm.trans hread) (by simp)
    obtain ⟨hlt, g, rest, hg⟩ := hgroup
    obtain ⟨w₁, hstored, hnext⟩ := hg.stored hop hinc hlt
    obtain ⟨gs, htable, hfits⟩ :=
      ih rest.length (hn ▸ hg.length_lt) rfl (hstored.operation.trans hop)
      hstored.increment_index (hnext.symm.trans hread)
    exact ⟨g :: gs, .cons hg htable, hlt, hstored.num_writes ▸ hfits⟩

/-! ### The two readings -/

/-- Every register of a table has one offset. -/
theorem Table.count {ν : Type} {part : List Tag → ν → List Tag → Prop} {m : Option ν}
    {tags : List Tag} {gs : List (ℕ × ν)} (h : Table part m tags gs)
    (hpart : ∀ {tags v rest}, part tags v rest →
      tags.countP (·.regname = "offset".toList) = rest.countP (·.regname = "offset".toList)) :
    tags.countP (·.regname = "offset".toList) = gs.length := by
  induction h with
  | nil => rfl
  | cons hg _ ih =>
      rw [List.length_cons, ← ih]
      cases hg with
      | after ho hp => rw [List.countP_cons_of_pos (by exact decide_eq_true ho), hpart hp]
      | before hp ho => rw [hpart hp, List.countP_cons_of_pos (by exact decide_eq_true ho)]
      | bare ho _ _ => rw [List.countP_cons_of_pos (by exact decide_eq_true ho)]

theorem Whole.count {tags rest : List Tag} {v : ℕ} (h : Whole tags v rest) :
    tags.countP (·.regname = "offset".toList) = rest.countP (·.regname = "offset".toList) := by
  cases h with
  | value ht => exact List.countP_cons_of_neg (by rw [ht]; decide)
  | pair hlo hhi =>
      rw [List.countP_cons_of_neg (by rw [hlo]; decide),
        List.countP_cons_of_neg (by rw [hhi]; decide)]

theorem Alone.count {tags rest : List Tag} {v : Option Tag} (h : Alone tags v rest) :
    tags.countP (·.regname = "offset".toList) = rest.countP (·.regname = "offset".toList) := by
  cases h with
  | tag ht =>
      refine List.countP_cons_of_neg ?_
      rw [decide_eq_true_eq]
      exact isValue_ne_offset ht

/-- Without halves a value is a value. -/
theorem Plain.value {t : Tag} {tags : List Tag} (h : Plain tags) (ht : t ∈ tags)
    (hvalue : isValue t.regname) :
    t.regname = "value".toList := by
  obtain ⟨hlo, hhi⟩ := h t ht
  rcases hvalue with hvalue | hvalue | hvalue
  · exact hvalue
  · exact absurd hvalue hlo
  · exact absurd hvalue hhi

theorem Plain.tail {t : Tag} {tags : List Tag} (h : Plain (t :: tags)) : Plain tags :=
  fun t' ht' => h t' (List.mem_cons_of_mem t ht')

section Readings

variable {op : Operation} {tags rest : List Tag}

/-- Without halves, a group that is meant is taken for what it is. -/
theorem Group.alone {g : ℕ × ℕ} (h : Group Whole (op.missing 0xFFFFFFFF) tags g rest)
    (hp : Plain tags) :
    ∃ g', Group Alone (op.missing none) tags g' rest ∧ entry g' = g ∧
      (∀ t ∈ g'.2, t.regname = "value".toList) ∧
      Plain rest := by
  cases h with
  | @after o tags _ _ ho hpart =>
      cases hpart with
      | @value t _ ht =>
          refine ⟨(u32 o.offset, some t), .after ho (.tag (.inl ht)), rfl, fun t' ht' =>
            ?_, hp.tail.tail⟩
          exact Option.some.inj ht' ▸ ht
      | pair hlo _ => exact absurd hlo (hp.tail _ List.mem_cons_self).1
  | @before o _ _ _ hpart ho =>
      cases hpart with
      | @value t _ ht =>
          refine ⟨(u32 o.offset, some t), .before (.tag (.inl ht)) ho, rfl, fun t' ht' =>
            ?_, hp.tail.tail⟩
          exact Option.some.inj ht' ▸ ht
      | pair hlo _ => exact absurd hlo (hp _ List.mem_cons_self).1
  | @bare o _ v ho hmissing hno =>
      cases op with
      | WRITE => cases hmissing
      | BITSWAP =>
          obtain rfl := Option.some.inj hmissing
          refine ⟨(u32 o.offset, none), .bare ho rfl ?_, rfl, fun t ht =>
            absurd ht (by simp), hp.tail⟩
          rintro v rest ⟨ht⟩
          exact hno _ _ (.value (hp.tail.value List.mem_cons_self ht))

/-- Without halves, a group is meant as it is taken. -/
theorem Group.whole {g : ℕ × Option Tag} (h : Group Alone (op.missing none) tags g rest)
    (hp : Plain tags) :
    Group Whole (op.missing 0xFFFFFFFF) tags (entry g) rest ∧
    (∀ t ∈ g.2, t.regname = "value".toList) ∧ Plain rest := by
  cases h with
  | after ho hpart =>
      cases hpart with
      | tag ht =>
          have hvalue := hp.tail.value List.mem_cons_self ht
          exact ⟨.after ho (.value hvalue), fun t' ht' =>
            Option.some.inj ht' ▸ hvalue, hp.tail.tail⟩
  | before hpart ho =>
      cases hpart with
      | tag ht =>
          have hvalue := hp.value List.mem_cons_self ht
          exact ⟨.before (.value hvalue) ho, fun t' ht' =>
            Option.some.inj ht' ▸ hvalue, hp.tail.tail⟩
  | bare ho hmissing hno =>
      cases op with
      | WRITE => cases hmissing
      | BITSWAP =>
          obtain rfl := Option.some.inj hmissing
          refine ⟨.bare ho rfl ?_, fun t ht => absurd ht (by simp), hp.tail⟩
          intro v rest hpart
          cases hpart with
          | value ht => exact hno _ _ (.tag (.inl ht))
          | pair hlo _ => exact hno _ _ (.tag (.inr (.inl hlo)))

theorem Meant.taken {gs : List (ℕ × ℕ)} (h : Meant op tags gs) (hp : Plain tags) :
    ∃ gs', Taken op tags gs' ∧ gs'.map entry = gs ∧
    ∀ g ∈ gs', ∀ t ∈ g.2, t.regname = "value".toList := by
  induction h with
  | nil => exact ⟨[], .nil, rfl, fun _ hg => absurd hg List.not_mem_nil⟩
  | cons hg _ ih =>
      obtain ⟨g', hg', rfl, hvalue, hrest⟩ := hg.alone hp
      obtain ⟨gs', htable, rfl, hvalues⟩ := ih hrest
      exact ⟨g' :: gs', .cons hg' htable, rfl, List.forall_mem_cons.mpr ⟨hvalue, hvalues⟩⟩

theorem Taken.meant {gs : List (ℕ × Option Tag)} (h : Taken op tags gs) (hp : Plain tags) :
    Meant op tags (gs.map entry) ∧ ∀ g ∈ gs, ∀ t ∈ g.2, t.regname = "value".toList := by
  induction h with
  | nil => exact ⟨.nil, fun _ hg => absurd hg List.not_mem_nil⟩
  | cons hg _ ih =>
      obtain ⟨hg', hvalue, hrest⟩ := hg.whole hp
      obtain ⟨htable, hvalues⟩ := ih hrest
      exact ⟨.cons hg' htable, List.forall_mem_cons.mpr ⟨hvalue, hvalues⟩⟩

/-- An upper half comes with a lower one. -/
theorem Meant.plain {gs : List (ℕ × ℕ)} (h : Meant op tags gs)
    (hlo : ∀ t ∈ tags, t.regname ≠ "value32_lo".toList) :
    Plain tags := by
  have hne {t : Tag} (h : t.regname = "offset".toList ∨ t.regname = "value".toList) :
      t.regname ≠ "value32_lo".toList ∧ t.regname ≠ "value32_hi".toList := by
    rcases h with h | h <;> rw [h] <;> decide
  induction h with
  | nil => exact fun _ ht => absurd ht List.not_mem_nil
  | cons hg _ ih =>
      cases hg with
      | after ho hpart =>
          obtain ⟨-, hlo⟩ := List.forall_mem_cons.mp hlo
          cases hpart with
          | value ht =>
              have hrest := ih (List.forall_mem_cons.mp hlo).2
              exact List.forall_mem_cons.mpr
                ⟨hne (.inl ho), List.forall_mem_cons.mpr ⟨hne (.inr ht), hrest⟩⟩
          | pair h _ => exact absurd h (hlo _ List.mem_cons_self)
      | before hpart ho =>
          cases hpart with
          | value ht =>
              have hrest := ih (List.forall_mem_cons.mp (List.forall_mem_cons.mp hlo).2).2
              exact List.forall_mem_cons.mpr
                ⟨hne (.inr ht), List.forall_mem_cons.mpr ⟨hne (.inl ho), hrest⟩⟩
          | pair h _ => exact absurd h (hlo _ List.mem_cons_self)
      | bare ho _ _ =>
          exact List.forall_mem_cons.mpr ⟨hne (.inl ho), ih (List.forall_mem_cons.mp hlo).2⟩

theorem weight_le (g : ℕ × Option Tag) : weight g ≤ 1 := by
  obtain ⟨o, t⟩ := g
  cases t with
  | none => exact le_rfl
  | some t =>
      show (if _ then 0 else 1) ≤ 1
      split <;> decide

theorem sum_weight_le (gs : List (ℕ × Option Tag)) : (gs.map weight).sum ≤ gs.length := by
  induction gs with
  | nil => exact le_rfl
  | cons g gs ih =>
      have := weight_le g
      rw [List.map_cons, List.sum_cons, List.length_cons]
      omega

/-- Where a lower half is taken for a value, a register is lost. -/
theorem Taken.sum_weight_lt {gs : List (ℕ × Option Tag)} (h : Taken op tags gs)
    (hlo : ∃ t ∈ tags, t.regname = "value32_lo".toList) : (gs.map weight).sum < gs.length := by
  have hzero {n : ℕ} {t : Tag} (h : t.regname = "value32_lo".toList) : weight (n, some t) = 0 :=
    if_pos h
  have hne {t : Tag} (ho : t.regname = "offset".toList) : ¬ t.regname = "value32_lo".toList := by
    rw [ho]; decide
  induction h with
  | nil => simp at hlo
  | @cons tags rest g gs hg _ ih =>
      have hsplit : weight g = 0 ∨ ∃ t ∈ rest, t.regname = "value32_lo".toList := by
        cases hg with
        | @after o _ _ _ ho hpart =>
            cases hpart with
            | @tag t _ _ =>
                simp only [List.mem_cons, exists_eq_or_imp] at hlo
                rcases hlo with h | h | h
                · exact absurd h (hne ho)
                · exact .inl (hzero h)
                · exact .inr h
        | @before o _ _ _ hpart ho =>
            cases hpart with
            | @tag t _ _ =>
                simp only [List.mem_cons, exists_eq_or_imp] at hlo
                rcases hlo with h | h | h
                · exact .inl (hzero h)
                · exact absurd h (hne ho)
                · exact .inr h
        | @bare o _ _ ho _ _ =>
            simp only [List.mem_cons, exists_eq_or_imp] at hlo
            rcases hlo with h | h
            · exact absurd h (hne ho)
            · exact .inr h
      rw [List.map_cons, List.sum_cons, List.length_cons]
      have hle := weight_le g
      have hrest := sum_weight_le gs
      rcases hsplit with h | h
      · omega
      · have := ih h
        omega

end Readings

/-! ### The array -/

/-- The places of `write_reg` that are accessed for a tag. -/
def tagTouches : Place × Wdt → Tag → List ℕ
  | (.head, w), t =>
    if w.num_writes ≥ MAX_NUM_REG then []
    else if t.regname = "offset".toList ∨ isValue t.regname then [w.num_writes]
    else []
  | (.afterOffset, w), t =>
    if isValue t.regname then [w.num_writes]
    else if t.regname = "offset".toList ∧ w.operation = some .BITSWAP then
      w.num_writes :: if w.num_writes + 1 ≥ MAX_NUM_REG then [] else [w.num_writes + 1]
    else []
  | (.afterValue, w), t => if t.regname = "offset".toList then [w.num_writes] else []

/-- The places that are accessed when there are no more tags. -/
def endTouches : Place × Wdt → List ℕ
  | (.afterOffset, w) => if w.operation = some .BITSWAP then [w.num_writes] else []
  | _ => []

/-- The places that are accessed from some tag on. -/
def touches : Place × Wdt → List Tag → List ℕ
  | s, [] => endTouches s
  | s, t :: tags => tagTouches s t ++ ((tagStep s t).map fun s => touches s tags).getD []

/-- Between the tags of a register there is room for it. -/
def Roomy (s : Place × Wdt) : Prop := s.1 ≠ .head → s.2.num_writes < MAX_NUM_REG

theorem tagTouches_lt {s : Place × Wdt} (h : Roomy s) (t : Tag) :
    ∀ i ∈ tagTouches s t, i < MAX_NUM_REG := by
  obtain ⟨p, w⟩ := s
  intro i hi
  cases p with
  | head =>
      simp only [tagTouches] at hi
      split at hi
      · exact absurd hi List.not_mem_nil
      · split at hi
        · rw [List.mem_singleton.mp hi]
          omega
        · exact absurd hi List.not_mem_nil
  | afterOffset =>
      have hlt : w.num_writes < MAX_NUM_REG := h (show Place.afterOffset ≠ .head by decide)
      simp only [tagTouches] at hi
      split at hi
      · exact List.mem_singleton.mp hi ▸ hlt
      · split at hi
        · rcases List.mem_cons.mp hi with rfl | hi
          · exact hlt
          · split at hi
            · exact absurd hi List.not_mem_nil
            · rw [List.mem_singleton.mp hi]
              omega
        · exact absurd hi List.not_mem_nil
  | afterValue =>
      have hlt : w.num_writes < MAX_NUM_REG := h (show Place.afterValue ≠ .head by decide)
      simp only [tagTouches] at hi
      split at hi
      · exact List.mem_singleton.mp hi ▸ hlt
      · exact absurd hi List.not_mem_nil

theorem storeValue_num_writes (t : Tag) (w : Wdt) : (storeValue t w).num_writes = w.num_writes := by
  unfold storeValue
  split
  · rfl
  · split <;> rfl

theorem Roomy.step {s s' : Place × Wdt} (h : Roomy s) {t : Tag} (hstep : tagStep s t = some s') :
    Roomy s' := by
  obtain ⟨p, w⟩ := s
  cases p with
  | head =>
      simp only [tagStep] at hstep
      split at hstep
      · cases hstep
      have hlt : w.num_writes < MAX_NUM_REG := Nat.not_le.mp ‹_›
      split at hstep
      · cases hstep
        exact fun _ => hlt
      · split at hstep
        · cases hstep
          exact fun _ => (storeValue_num_writes t w).symm ▸ hlt
        · cases hstep
  | afterOffset =>
      simp only [tagStep] at hstep
      split at hstep
      · cases hstep
        exact fun hne => absurd rfl hne
      · split at hstep
        · split at hstep
          · split at hstep
            · cases hstep
            · cases hstep
              exact fun _ => Nat.not_le.mp ‹_›
          · cases hstep
        · cases hstep
  | afterValue =>
      simp only [tagStep] at hstep
      split at hstep
      · cases hstep
        exact fun hne => absurd rfl hne
      · cases hstep

/-- **The program stays inside the array**, whatever the tags are. -/
theorem touches_lt :
    ∀ (tags : List Tag) {s : Place × Wdt}, Roomy s → ∀ i ∈ touches s tags, i < MAX_NUM_REG
  | [], (p, w), h, i, hi => by
      cases p with
      | head => exact absurd hi List.not_mem_nil
      | afterOffset =>
          simp only [touches, endTouches] at hi
          split at hi
          · exact List.mem_singleton.mp hi ▸ h (show Place.afterOffset ≠ .head by decide)
          · exact absurd hi List.not_mem_nil
      | afterValue => exact absurd hi List.not_mem_nil
  | t :: tags, s, h, i, hi => by
      rcases List.mem_append.mp hi with hi | hi
      · exact tagTouches_lt h t i hi
      · cases hstep : tagStep s t with
        | none =>
            rw [hstep] at hi
            exact absurd hi List.not_mem_nil
        | some s' =>
            rw [hstep] at hi
            exact touches_lt tags (h.step hstep) i hi

/-! ### `wd_parse_hwinfo` -/

/-- The item with the registers, and what is to be done with them. -/
def Hwinfo.table (h : Hwinfo) : Option (Operation × List Tag) :=
  (h.bitswap.map fun tags => (.BITSWAP, tags)) <|> h.regwrite.map fun tags => (.WRITE, tags)

/-- The state in which the tags of that item are read. -/
def atTable (i : Input) : Wdt :=
  (parse_hwinfo_bitswap i.hwinfo
    (parse_hwinfo_opt (parse_hwinfo_init i.hwinfo (initial i)) (i.hwinfo.options.getD []))).1

/-- The places of `write_reg` that `wd_parse_hwinfo` accesses. -/
def parseTouches (i : Input) (tags : List Tag) : List ℕ := touches (.head, atTable i) tags

/-- What is asked of the reading of some tags: it gives the registers of the table that they are, it
fails if they are none or there are too many of them, and it stays inside the array. -/
structure ReadsTable (op : Operation) (tags : List Tag) (r : Option Wdt)
    (touched : List ℕ) : Prop where
  accepts : ∀ gs, Meant op tags gs → gs.length ≤ MAX_NUM_REG →
    ∃ w, r = some w ∧ (List.range w.num_writes).map w.write_reg = gs
  refuses : (∀ gs, Meant op tags gs → MAX_NUM_REG < gs.length) → r = none
  inside : ∀ i ∈ touched, i < MAX_NUM_REG

/-- The options of the watchdog come before its registers. -/
theorem opt_untouched (tags : List Tag) (w : Wdt) :
    (parse_hwinfo_opt w tags).num_writes = w.num_writes ∧
      (parse_hwinfo_opt w tags).increment_index = w.increment_index := by
  induction tags generalizing w with
  | nil => exact ⟨rfl, rfl⟩
  | cons t tags ih =>
      unfold parse_hwinfo_opt
      split
      · exact ih _
      split
      · exact ih _
      split
      · exact ih _
      split
      · exact ih _
      split
      · exact ih _
      · exact ⟨rfl, rfl⟩

theorem init_untouched (h : Hwinfo) (w : Wdt) :
    (parse_hwinfo_init h w).num_writes = w.num_writes ∧
    (parse_hwinfo_init h w).increment_index = w.increment_index := by
  unfold parse_hwinfo_init
  cases h.wdog <;> exact ⟨rfl, rfl⟩

theorem parse_eq {i : Input} {op : Operation} {tags : List Tag}
    (h : i.hwinfo.table = some (op, tags)) :
    wd_parse_hwinfo i.hwinfo (initial i) = readTags (.head, atTable i) tags ∧
      (atTable i).operation = some op ∧
      (atTable i).num_writes = 0 ∧ (atTable i).increment_index = true := by
  have hopt := opt_untouched (i.hwinfo.options.getD []) (parse_hwinfo_init i.hwinfo (initial i))
  have hinit := init_untouched i.hwinfo (initial i)
  unfold wd_parse_hwinfo atTable parse_hwinfo_bitswap readTags
  unfold Hwinfo.table at h
  cases hb : i.hwinfo.bitswap with
  | some b =>
      rw [hb] at h
      cases h
      exact ⟨rfl, rfl, hopt.1.trans hinit.1, hopt.2.trans hinit.2⟩
  | none =>
      rw [hb] at h
      cases hr : i.hwinfo.regwrite with
      | none =>
          rw [hr] at h
          cases h
      | some b =>
          rw [hr] at h
          cases h
          exact ⟨rfl, rfl, hopt.1.trans hinit.1, hopt.2.trans hinit.2⟩

theorem length_le_of_fits {gs : List (ℕ × Option Tag)}
    (hvalue : ∀ g ∈ gs, ∀ t ∈ g.2, t.regname = "value".toList) :
    ∀ {n}, n ≤ MAX_NUM_REG → (Fits n gs ↔ n + gs.length ≤ MAX_NUM_REG) := by
  induction gs with
  | nil => exact fun hn => ⟨fun _ => hn, fun _ => trivial⟩
  | cons g gs ih =>
      intro n _
      obtain ⟨hg, hgs⟩ := List.forall_mem_cons.mp hvalue
      have hweight : weight g = 1 := by
        obtain ⟨o, t⟩ := g
        cases t with
        | none => rfl
        | some t => exact if_neg (by rw [hg t rfl]; decide)
      rw [Fits, hweight, List.length_cons]
      constructor
      · rintro ⟨hlt, hfits⟩
        have := (ih hgs hlt).mp hfits
        omega
      · intro hle
        have hlt : n < MAX_NUM_REG := by omega
        exact ⟨hlt, (ih hgs hlt).mpr (by omega)⟩

/-- **The registers of an item** are read as they should be exactly if their values come without
halves, or the tags are no table and are not taken for one either. -/
theorem wd_parse_hwinfo_iff (i : Input) {op : Operation} {tags : List Tag}
    (h : i.hwinfo.table = some (op, tags)) :
    ReadsTable op tags (wd_parse_hwinfo i.hwinfo (initial i)) (parseTouches i tags) ↔
      Plain tags ∨ (¬ ∃ gs, Meant op tags gs ∧ gs.length ≤ MAX_NUM_REG) ∧ ¬ ∃ gs, Taken op tags gs ∧
      Fits 0 gs := by
  obtain ⟨heq, hop, hnum, hinc⟩ := parse_eq h
  have hinside : ∀ i' ∈ parseTouches i tags, i' < MAX_NUM_REG :=
    touches_lt tags fun hne => absurd rfl hne
  rw [heq]
  constructor
  · intro hreads
    by_cases htaken : ∃ gs, Taken op tags gs ∧ Fits 0 gs
    · -- the program finds registers: they are as many as were meant, so no half is among the tags
      obtain ⟨gs', htaken, hfits⟩ := htaken
      obtain ⟨w', hread, hnum', -⟩ := readTags_taken htaken hop hinc (hnum.symm ▸ hfits)
      have hmeant : ∃ gs, Meant op tags gs ∧ gs.length ≤ MAX_NUM_REG := by
        by_contra hno
        have hnone := hreads.refuses fun gs hgs => Nat.not_le.mp fun hle => hno ⟨gs, hgs, hle⟩
        exact absurd (hnone.symm.trans hread) (by simp)
      obtain ⟨gs, hmeant, hle⟩ := hmeant
      obtain ⟨w, hw, hentries⟩ := hreads.accepts gs hmeant hle
      obtain rfl := Option.some.inj (hread.symm.trans hw)
      have hlength : w'.num_writes = gs.length := by simpa using congrArg List.length hentries
      have hsame : gs.length = gs'.length :=
        (hmeant.count Whole.count).symm.trans (htaken.count Alone.count)
      refine .inl (hmeant.plain fun t ht hlo => ?_)
      have hlost := htaken.sum_weight_lt ⟨t, ht, hlo⟩
      omega
    · refine .inr ⟨?_, htaken⟩
      rintro ⟨gs, hmeant, hle⟩
      obtain ⟨w, hw, -⟩ := hreads.accepts gs hmeant hle
      obtain ⟨gs', htaken', hfits⟩ := taken_of_readTags hop hinc hw
      exact htaken ⟨gs', htaken', hnum ▸ hfits⟩
  · rintro (hplain | ⟨hmeant, htaken⟩)
    · refine ⟨fun gs hgs hle => ?_, fun hno => ?_, hinside⟩
      · obtain ⟨gs', htaken, rfl, hvalue⟩ := hgs.taken hplain
        have hfits : Fits (atTable i).num_writes gs' := by
          rw [hnum, length_le_of_fits hvalue (by decide)]
          simpa using hle
        obtain ⟨w', hread, -, hentries⟩ := readTags_taken htaken hop hinc hfits
        refine ⟨w', hread, ?_⟩
        rw [hentries hvalue, hnum]
        rfl
      · by_contra hsome
        obtain ⟨w', hread⟩ := Option.ne_none_iff_exists'.mp hsome
        obtain ⟨gs', htaken, hfits⟩ := taken_of_readTags hop hinc hread
        obtain ⟨hmeant, hvalue⟩ := htaken.meant hplain
        rw [hnum, length_le_of_fits hvalue (by decide)] at hfits
        have hlt := hno _ hmeant
        rw [List.length_map] at hlt
        omega
    · refine ⟨fun gs hgs hle => absurd ⟨gs, hgs, hle⟩ hmeant, fun _ => ?_, hinside⟩
      by_contra hsome
      obtain ⟨w', hread⟩ := Option.ne_none_iff_exists'.mp hsome
      obtain ⟨gs', htaken', hfits⟩ := taken_of_readTags hop hinc hread
      exact htaken ⟨gs', htaken', hnum ▸ hfits⟩

/-- An hwinfo section that lists registers to write, and nothing else. -/
def listed (tags : List Tag) : Input where
  hwinfo := ⟨none, none, none, some tags⟩
  opts := []
  enable_condition := 0
  write_reg := fun _ => (0, 0)
  bitswap_value := 0
  erange := false
  configured := true
  mapped := true

/-- Three registers, one of them with its value in front. -/
def three : List Tag :=
  [⟨"offset".toList, 0x1c⟩, ⟨"value".toList, 0x20⟩, ⟨"value".toList, 0x5A0000FF⟩,
    ⟨"offset".toList, 0x24⟩, ⟨"offset".toList, 0x28⟩, ⟨"value".toList, 1⟩]

/-- They are read. -/
theorem wd_parse_hwinfo_iff_three :
    ∃ w, wd_parse_hwinfo (listed three).hwinfo (initial (listed three)) = some w ∧
      (List.range w.num_writes).map w.write_reg =
        [(0x1c, 0x20), (0x24, 0x5A0000FF), (0x28, 1)] := by
  have hmeant : Meant .WRITE three [(0x1c, 0x20), (0x24, 0x5A0000FF), (0x28, 1)] :=
    .cons (.after rfl (Whole.value rfl))
      (.cons (.before (Whole.value rfl) rfl) (.cons (.after rfl (Whole.value rfl)) .nil))
  exact ((wd_parse_hwinfo_iff (listed three) rfl).mpr (.inl (by decide))).accepts _ hmeant
    (by decide)

/-- A register whose value comes in halves. -/
def halves : List Tag :=
  [⟨"offset".toList, 0x24⟩, ⟨"value32_lo".toList, 0x8E4C⟩, ⟨"value32_hi".toList, 0x5A02⟩]

/-- It is refused. -/
theorem halves_refused :
    ¬ ∀ (i : Input) (op : Operation) (tags : List Tag), i.hwinfo.table = some (op, tags) →
    ReadsTable op tags (wd_parse_hwinfo i.hwinfo (initial i)) (parseTouches i tags) := by
  intro h
  have hmeant : Meant .WRITE halves [(0x24, 0x5A028E4C)] :=
    .cons (.after rfl (.pair rfl rfl)) .nil
  obtain ⟨w, hw, -⟩ := (h (listed halves) .WRITE halves rfl).accepts _ hmeant (by decide)
  have hnone : (wd_parse_hwinfo (listed halves).hwinfo (initial (listed halves))).isNone =
    true := by decide +kernel
  rw [hw] at hnone
  cases hnone

end Wdtkick
