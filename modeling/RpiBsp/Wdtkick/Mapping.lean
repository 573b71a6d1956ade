import Mathlib.Order.MinMax
import RpiBsp.Wdtkick.Definitions

/-!
# Wdtkick — what is mapped

What the hwinfo section and the command line ask for is a list of settings, each of which overrides
the ones before it; `Given` is what is left of them.  The program maps as many bytes as the largest
number among a length and the offsets that came after it: the offsets themselves, not the ends of
the registers there.

* `agrees_opt`, `agrees_tag` — the program follows the settings, one option and one tag at a time;
* `agrees_main` — and so does its state when it reaches its loop;
* `mapped_iff` — **main**: all accesses are within the mapped bytes just when each register ends
  at or before some number that was given for the length.
-/

namespace Wdtkick

open Support

/-! ### Settings -/

inductive Setting where
  /-- `-l`: the length from now on. -/
  | length (n : ℕ)
  /-- A number that the length is at least. -/
  | reach (n : ℕ)
  | enableOffset (n : ℕ)
  | enableMask (n : ℕ)
  | enableWidth (n : ℕ)
  | writeWidth (n : ℕ)
  | register (offset : ℕ)
  | operation (op : Operation)
deriving DecidableEq, Repr

/-- What was given: the numbers for the length, the enable register, the widths, and the registers
to kick. -/
structure Given where
  lengths : List ℕ
  enableOffset : ℕ
  enableMask : ℕ
  enableWidth : ℕ
  writeWidth : ℕ
  registers : List ℕ
  operation : Option Operation
deriving DecidableEq, Repr

def Setting.apply (g : Given) : Setting → Given
  | .length n => { g with lengths := [n] }
  | .reach n => { g with lengths := g.lengths ++ [n] }
  | .enableOffset n => { g with enableOffset := n }
  | .enableMask n => { g with enableMask := n }
  | .enableWidth n => { g with enableWidth := n }
  | .writeWidth n => { g with writeWidth := n }
  | .register n => { g with registers := g.registers ++ [n] }
  | .operation op => { g with operation := some op }

def applyAll (g : Given) (l : List Setting) : Given := l.foldl Setting.apply g

@[simp] theorem applyAll_nil (g : Given) : applyAll g [] = g := rfl

@[simp] theorem applyAll_cons (g : Given) (s : Setting) (l : List Setting) :
    applyAll g (s :: l) = applyAll (s.apply g) l := rfl

theorem applyAll_append (g : Given) (l l' : List Setting) :
    applyAll g (l ++ l') = applyAll (applyAll g l) l' :=
  List.foldl_append

/-- Nothing was given. -/
def defaults : Given := ⟨[DEFAULT_REG_LEN], 0, 0, 32, 32, [], none⟩

/-- An option. -/
def optSettings (o : Opt) : List Setting :=
  match o.opt with
  | .l => if (strtoul 0 o.optarg).erange then [] else [.length (strtoul 0 o.optarg).val]
  | .w => if (strtoul 0 o.optarg).erange then [] else [.writeWidth (u32 (strtoul 0 o.optarg).val)]
  | .r => if (strtoul 0 o.optarg).erange then [] else [.enableWidth (u32 (strtoul 0 o.optarg).val)]
  | .E =>
    let p := strtol64 16 o.optarg
    [.enableOffset (u32 p.val), .reach (u32 p.val), .enableMask (u32 (strtoul 16 p.rest.tail).val)]
  | .B =>
    [.reach (u32 (strtol64 16 o.optarg).val), .register (u32 (strtol64 16 o.optarg).val),
      .operation .BITSWAP]
  | .W =>
    [.reach (u32 (strtoul 16 o.optarg).val), .register (u32 (strtoul 16 o.optarg).val),
      .operation .WRITE]
  | _ => []

/-- The tags of `wdt,options`, up to the first with another name. -/
def hwinfoSettings : List Tag → List Setting
  | [] => []
  | t :: tags =>
    if t.regname = "write_width".toList then .writeWidth (u32 t.offset) :: hwinfoSettings tags
    else if t.regname = "enable_width".toList then
      .enableWidth (u32 t.offset) :: hwinfoSettings tags
    else if t.regname = "enable_mask".toList then .enableMask (u32 t.offset) :: hwinfoSettings tags
    else if t.regname = "enable_condition".toList then hwinfoSettings tags
    else if t.regname = "enable_offset".toList then
      .enableOffset (u32 t.offset) :: .reach (u32 t.offset) :: hwinfoSettings tags
    else []

/-- What is known of a table of registers: nothing, an offset whose value is to come, or a value
whose offset is to come and, unless it is the first half of one, is a register. -/
inductive Pending where
  | nothing
  | offset (n : ℕ)
  | value (whole : Bool)
deriving DecidableEq, Repr

/-- One tag of a table. -/
def tableStep : Pending → Tag → List Setting × Pending
  | .nothing, t =>
    if t.regname = "offset".toList then ([.reach (u32 t.offset)], .offset (u32 t.offset))
    else ([], .value (t.regname ≠ "value32_lo".toList))
  | .offset n, t =>
    if t.regname = "offset".toList then
      ([.register n, .reach (u32 t.offset)], .offset (u32 t.offset))
    else if t.regname = "value32_lo".toList then ([], .nothing)
    else ([.register n], .nothing)
  | .value whole, t =>
      (.reach (u32 t.offset) :: if whole then [.register (u32 t.offset)] else [], .nothing)

def tableSettings : Pending → List Tag → List Setting
  | .offset n, [] => [.register n]
  | _, [] => []
  | p, t :: tags => (tableStep p t).1 ++ tableSettings (tableStep p t).2 tags

/-- The table that is used, and for what. -/
def table (h : Hwinfo) : List Setting × List Tag :=
  match h.bitswap with
  | some tags => ([.operation .BITSWAP], tags)
  | none =>
    match h.regwrite with
    | some tags => ([.operation .WRITE], tags)
    | none => ([], [])

/-- **All settings**, in order. -/
def settings (i : Input) : List Setting :=
  (i.hwinfo.wdog.map fun t => Setting.reach t.len).toList ++
    hwinfoSettings (i.hwinfo.options.getD []) ++
    (table i.hwinfo).1 ++ tableSettings .nothing (table i.hwinfo).2 ++ i.opts.flatMap optSettings

def given (i : Input) : Given := applyAll defaults (settings i)

/-! ### The state against the settings -/

/-- The program's state is what was given. -/
structure Agrees (w : Wdt) (g : Given) : Prop where
  len : w.len = g.lengths.foldl max 0
  enableOffset : w.enable_reg_offset = g.enableOffset
  enableMask : w.enable_mask = g.enableMask
  enableWidth : w.enable_width = g.enableWidth
  writeWidth : w.write_width = g.writeWidth
  registers : (List.range w.num_writes).map (fun i => (w.write_reg i).1) = g.registers
  operation : w.operation = g.operation

namespace Agrees

variable {w w' : Wdt} {g : Given}

/-- Only these parts of the state count. -/
theorem congr (h : Agrees w g) (hlen : w'.len = w.len)
    (heo : w'.enable_reg_offset = w.enable_reg_offset)
    (hem : w'.enable_mask = w.enable_mask) (hew : w'.enable_width = w.enable_width)
    (hww : w'.write_width = w.write_width) (hn : w'.num_writes = w.num_writes)
    (hreg : ∀ i < w.num_writes, (w'.write_reg i).1 = (w.write_reg i).1)
    (hop : w'.operation = w.operation) :
    Agrees w' g where
  len := hlen.trans h.len
  enableOffset := heo.trans h.enableOffset
  enableMask := hem.trans h.enableMask
  enableWidth := hew.trans h.enableWidth
  writeWidth := hww.trans h.writeWidth
  registers := by
    rw [hn, ← h.registers]
    exact List.map_congr_left fun i hi => hreg i (List.mem_range.mp hi)
  operation := hop.trans h.operation

theorem reach (h : Agrees w g) (n : ℕ) : Agrees (w.reach n) (Setting.apply g (.reach n)) := by
  refine { h with len := ?_ }
  change (if n > w.len then n else w.len) = (g.lengths ++ [n]).foldl max 0
  rw [List.foldl_append, List.foldl_cons, List.foldl_nil, ← h.len, Nat.max_def]
  split <;> split <;> omega

theorem setOffset (h : Agrees w g) (n : ℕ) : Agrees (w.setOffset n) g :=
  h.congr rfl rfl rfl rfl rfl rfl (fun i hi => by simp [Wdt.setOffset, Nat.ne_of_lt hi]) rfl

theorem setVal (h : Agrees w g) (n : ℕ) : Agrees (w.setVal n) g :=
  h.congr rfl rfl rfl rfl rfl rfl (fun i hi => by simp [Wdt.setVal, Nat.ne_of_lt hi]) rfl

theorem setOperation (h : Agrees w g) (op : Operation) :
    Agrees { w with operation := some op } (Setting.apply g (.operation op)) :=
  { h with operation := rfl }

/-- The entry at the end of the table counts from now on. -/
theorem register (h : Agrees w g) {n : ℕ} (hn : (w.write_reg w.num_writes).1 = n) :
    Agrees { w with num_writes := w.num_writes + 1 } (Setting.apply g (.register n)) := by
  refine { h with registers := ?_ }
  change (List.range (w.num_writes + 1)).map (fun i => (w.write_reg i).1) = g.registers ++ [n]
  rw [List.range_succ, List.map_append, h.registers, List.map_singleton, hn]

end Agrees

/-! ### Options -/

theorem agrees_enable {o : Opt} {w w' : Wdt} {g : Given} (h : Agrees w g)
    (hstep : wd_parse_options_enable_offset o w = some w') :
    Agrees w' (applyAll g
        [.enableOffset (u32 (strtol64 16 o.optarg).val), .reach (u32 (strtol64 16 o.optarg).val),
      .enableMask (u32 (strtoul 16 (strtol64 16 o.optarg).rest.tail).val)]) := by
  generalize hp : strtol64 16 o.optarg = p at hstep ⊢
  generalize hq : strtoul 16 p.rest.tail = q at hstep ⊢
  have hset : Agrees { w with enable_reg_offset := u32 p.val }
      (Setting.apply g (.enableOffset (u32 p.val))) :=
    { h with enableOffset := rfl }
  have hreach := hset.reach (u32 p.val)
  -- the condition and `errno` are not part of what is compared
  have hmask : ∀ c e, Agrees { ({ w with enable_reg_offset := u32 p.val }.reach (u32 p.val)) with
      enable_mask := u32 q.val, enable_condition := c, erange := e }
      (applyAll g [.enableOffset (u32 p.val), .reach (u32 p.val), .enableMask (u32 q.val)]) :=
    fun c e => { hreach with enableMask := rfl }
  unfold wd_parse_options_enable_offset at hstep
  rw [hp] at hstep
  dsimp only at hstep
  rw [hq] at hstep
  replace hstep := (Option.ite_none_left_eq_some.mp hstep).2
  replace hstep := (Option.ite_none_left_eq_some.mp hstep).2
  replace hstep := (Option.ite_none_left_eq_some.mp hstep).2
  replace hstep := (Option.ite_none_left_eq_some.mp hstep).2
  split at hstep
  case isTrue =>
      rw [← Option.some.inj hstep]
      exact hmask _ _
  case isFalse =>
      replace hstep := (Option.ite_none_left_eq_some.mp hstep).2
      split at hstep
      case isTrue =>
          rw [← Option.some.inj (Option.ite_none_left_eq_some.mp hstep).2]
          exact hmask _ _
      case isFalse =>
          rw [← Option.some.inj hstep]
          exact hmask _ _

/-- The register of an option `-B` or `-W`: its offset is stored, the length raised, its value
stored, and it counts from now on. -/
theorem Agrees.option {w : Wdt} {g : Given} (h : Agrees w g) (n v : ℕ) (op : Operation) {w' : Wdt}
    (hlen : w'.len = (w.reach n).len) (heo : w'.enable_reg_offset = w.enable_reg_offset)
    (hem : w'.enable_mask = w.enable_mask) (hew : w'.enable_width = w.enable_width)
    (hww : w'.write_width = w.write_width) (hn : w'.num_writes = w.num_writes + 1)
    (hreg : w'.write_reg = ((w.setOffset n).setVal v).write_reg) (hop : w'.operation = some op) :
    Agrees w' (applyAll g [.reach n, .register n, .operation op]) := by
  have hset := ((h.reach n).setOffset n).setVal v
  have hend := (hset.register (n := n)
    (by simp [Wdt.setVal, Wdt.setOffset, Wdt.reach])).setOperation op
  refine hend.congr hlen heo hem hew hww hn (fun i _ => ?_) hop
  rw [hreg]
  rfl

theorem agrees_bitswap {o : Opt} {w w' : Wdt} {g : Given} (h : Agrees w g)
    (hstep : wd_parse_options_bitswap o w = some w') :
    Agrees w' (applyAll g
        [.reach (u32 (strtol64 16 o.optarg).val), .register (u32 (strtol64 16 o.optarg).val),
      .operation .BITSWAP]) := by
  unfold wd_parse_options_bitswap at hstep
  replace hstep := (Option.ite_none_left_eq_some.mp hstep).2
  dsimp only at hstep
  replace hstep := (Option.ite_none_left_eq_some.mp hstep).2
  replace hstep := (Option.ite_none_left_eq_some.mp hstep).2
  replace hstep := (Option.ite_none_left_eq_some.mp hstep).2
  rw [← Option.some.inj hstep]
  exact h.option _ _ _ rfl rfl rfl rfl rfl rfl rfl rfl

theorem agrees_write {o : Opt} {w w' : Wdt} {g : Given} (h : Agrees w g)
    (hstep : wd_parse_options_write o w = some w') :
    Agrees w' (applyAll g
        [.reach (u32 (strtoul 16 o.optarg).val), .register (u32 (strtoul 16 o.optarg).val),
      .operation .WRITE]) := by
  unfold wd_parse_options_write at hstep
  replace hstep := (Option.ite_none_left_eq_some.mp hstep).2
  dsimp only at hstep
  replace hstep := (Option.ite_none_left_eq_some.mp hstep).2
  replace hstep := (Option.ite_none_left_eq_some.mp hstep).2
  replace hstep := (Option.ite_none_left_eq_some.mp hstep).2
  rw [← Option.some.inj hstep]
  exact h.option _ _ _ rfl rfl rfl rfl rfl rfl rfl rfl

/-- A number that is taken unless it was out of range. -/
theorem applyAll_unless (g : Given) (c : Bool) (s : Setting) :
    applyAll g (if c then [] else [s]) = if c then g else s.apply g := by
  cases c <;> rfl

/-- **One option** does what its settings say. -/
theorem agrees_opt {o : Opt} {w w' : Wdt} {g : Given} (h : Agrees w g)
    (hstep : optStep w o = some w') :
    Agrees w' (applyAll g (optSettings o)) := by
  obtain ⟨opt, arg, beyond⟩ := o
  cases opt with
  | a | p | t | v | other =>
      rw [← Option.some.inj hstep]
      exact { h with }
  | l =>
      rw [← Option.some.inj hstep, optSettings, applyAll_unless]
      dsimp only
      cases (strtoul 0 arg).erange with
      | true => exact { h with }
      | false => exact { h with len := (Nat.zero_max _).symm }
  | w =>
      rw [← Option.some.inj hstep, optSettings, applyAll_unless]
      dsimp only
      cases (strtoul 0 arg).erange with
      | true => exact { h with }
      | false => exact { h with writeWidth := rfl }
  | r =>
      rw [← Option.some.inj hstep, optSettings, applyAll_unless]
      dsimp only
      cases (strtoul 0 arg).erange with
      | true => exact { h with }
      | false => exact { h with enableWidth := rfl }
  | E => exact agrees_enable h hstep
  | B => exact agrees_bitswap h hstep
  | W => exact agrees_write h hstep

theorem agrees_opts {opts : List Opt} :
    ∀ {w w' : Wdt} {g : Given}, Agrees w g → wd_parse_options opts w = some w' →
    Agrees w' (applyAll g (opts.flatMap optSettings)) := by
  induction opts with
  | nil =>
      intro w w' g h hrun
      rw [← Option.some.inj hrun]
      exact h
  | cons o opts ih =>
      intro w w' g h hrun
      rw [wd_parse_options, List.foldlM_cons] at hrun
      obtain ⟨w₁, hstep, hrest⟩ := Option.bind_eq_some_iff.mp hrun
      rw [List.flatMap_cons, applyAll_append]
      exact ih (agrees_opt h hstep) hrest

/-! ### Hwinfo -/

theorem agrees_hwinfo_opt (tags : List Tag) : ∀ {w : Wdt} {g : Given}, Agrees w g →
    Agrees (parse_hwinfo_opt w tags) (applyAll g (hwinfoSettings tags)) := by
  induction tags with
  | nil =>
      intro w g h
      exact h
  | cons t tags ih =>
      intro w g h
      rw [parse_hwinfo_opt, hwinfoSettings]
      by_cases h1 : t.regname = "write_width".toList
      · rw [if_pos h1, if_pos h1]
        exact ih { h with writeWidth := rfl }
      rw [if_neg h1, if_neg h1]
      by_cases h2 : t.regname = "enable_width".toList
      · rw [if_pos h2, if_pos h2]
        exact ih { h with enableWidth := rfl }
      rw [if_neg h2, if_neg h2]
      by_cases h3 : t.regname = "enable_mask".toList
      · rw [if_pos h3, if_pos h3]
        exact ih { h with enableMask := rfl }
      rw [if_neg h3, if_neg h3]
      by_cases h4 : t.regname = "enable_condition".toList
      · rw [if_pos h4, if_pos h4]
        exact ih { h with }
      rw [if_neg h4, if_neg h4]
      by_cases h5 : t.regname = "enable_offset".toList
      · rw [if_pos h5, if_pos h5]
        have hset : Agrees { w with enable_reg_offset := u32 t.offset }
            (Setting.apply g (.enableOffset (u32 t.offset))) :=
          { h with enableOffset := rfl }
        exact ih (hset.reach (u32 t.offset))
      · rw [if_neg h5, if_neg h5]
        exact h

/-- The place in the loop against what is known of the table. -/
def Waits : Place × Wdt → Pending → Prop
  | (.head, w), .nothing => w.increment_index = true
  | (.afterOffset, w), .offset n => (w.write_reg w.num_writes).1 = n ∧ w.increment_index = true
  | (.afterValue, w), .value whole => w.increment_index = whole
  | _, _ => False

theorem agrees_storeOffset {w : Wdt} {g : Given} (h : Agrees w g) (t : Tag) :
    Agrees (storeOffset t w) (Setting.apply g (.reach (u32 t.offset))) :=
  (h.setOffset _).reach _

theorem storeOffset_offset (t : Tag) (w : Wdt) :
    ((storeOffset t w).write_reg (storeOffset t w).num_writes).1 = u32 t.offset := by
  simp [storeOffset, Wdt.setOffset, Wdt.reach]

theorem agrees_storeValue {w : Wdt} {g : Given} (h : Agrees w g) (t : Tag) :
    Agrees (storeValue t w) g := by
  unfold storeValue
  split
  case isTrue => exact h.setVal _
  case isFalse =>
      split
      case isTrue => exact { h.setVal (u32 t.offset) with }
      case isFalse => exact h.setVal _

/-- A value leaves the offset of its entry, and only the first half of one keeps the entry open. -/
theorem storeValue_open (t : Tag) (w : Wdt) :
    ((storeValue t w).write_reg (storeValue t w).num_writes).1 = (w.write_reg w.num_writes).1 ∧
      (storeValue t w).increment_index = (if t.regname = "value32_lo".toList then false
        else w.increment_index) := by
  unfold storeValue
  split
  case isTrue hv =>
      rw [hv]
      exact ⟨by simp [Wdt.setVal], rfl⟩
  case isFalse =>
      split
      case isTrue => exact ⟨by simp [Wdt.setVal], rfl⟩
      case isFalse => exact ⟨by simp [Wdt.setVal], rfl⟩

/-- At the end of the loop's body the entry counts, unless it is kept open. -/
theorem agrees_bump {w : Wdt} {g : Given} (h : Agrees w g) {n : ℕ}
    (hn : (w.write_reg w.num_writes).1 = n) :
    Agrees (bump w) (applyAll g (if w.increment_index then [.register n] else [])) ∧
    (bump w).increment_index = true := by
  unfold bump
  by_cases hi : w.increment_index = true
  · rw [if_pos hi, if_pos hi]
    exact ⟨h.register hn, hi⟩
  · rw [if_neg hi, if_neg hi]
    exact ⟨{ h with }, rfl⟩

/-- **One tag** of a table does what its settings say. -/
theorem agrees_tag {t : Tag} {p : Pending} {s s' : Place × Wdt} {g : Given} (h : Agrees s.2 g)
    (hw : Waits s p) (hstep : tagStep s t = some s') :
    Agrees s'.2 (applyAll g (tableStep p t).1) ∧ Waits s' (tableStep p t).2 := by
  obtain ⟨place, w⟩ := s
  cases place with
  | head =>
      cases p with
      | offset n => exact hw.elim
      | value whole => exact hw.elim
      | nothing =>
          rw [tagStep] at hstep
          replace hstep := (Option.ite_none_left_eq_some.mp hstep).2
          rw [tableStep]
          by_cases ho : t.regname = "offset".toList
          · rw [if_pos ho] at hstep ⊢
            rw [← Option.some.inj hstep]
            exact ⟨agrees_storeOffset h t, storeOffset_offset t w, hw⟩
          · rw [if_neg ho] at hstep ⊢
            obtain ⟨-, hstep⟩ := Option.ite_none_right_eq_some.mp hstep
            rw [← Option.some.inj hstep]
            refine ⟨(agrees_storeValue h t).setVal _, ?_⟩
            change (storeValue t w).increment_index = decide (t.regname ≠ "value32_lo".toList)
            rw [(storeValue_open t w).2, show w.increment_index = true from hw]
            split <;> simp_all
  | afterOffset =>
      cases p with
      | nothing => exact hw.elim
      | value whole => exact hw.elim
      | offset n =>
          obtain ⟨hoff, hinc⟩ := hw
          rw [tagStep] at hstep
          rw [tableStep]
          by_cases hv : isValue t.regname
          · rw [if_pos hv] at hstep
            rw [← Option.some.inj hstep]
            have hno : t.regname ≠ "offset".toList := by
              rcases hv with hv | hv | hv <;> rw [hv] <;> decide
            obtain ⟨hopen, hindex⟩ := storeValue_open t w
            have hbump := agrees_bump (agrees_storeValue h t) (hopen.trans hoff)
            rw [hindex, hinc] at hbump
            rw [if_neg hno]
            by_cases hlo : t.regname = "value32_lo".toList
            · rw [if_pos hlo] at hbump ⊢
              exact hbump
            · rw [if_neg hlo] at hbump ⊢
              exact hbump
          · rw [if_neg hv] at hstep
            obtain ⟨ho, hstep⟩ := Option.ite_none_right_eq_some.mp hstep
            obtain ⟨-, hstep⟩ := Option.ite_none_right_eq_some.mp hstep
            replace hstep := (Option.ite_none_left_eq_some.mp hstep).2
            rw [if_pos ho, ← Option.some.inj hstep]
            have hreg := (h.setVal 0xFFFFFFFF).register (n := n) (by simpa [Wdt.setVal] using hoff)
            exact ⟨agrees_storeOffset hreg t, storeOffset_offset t _, hinc⟩
  | afterValue =>
      cases p with
      | nothing => exact hw.elim
      | offset n => exact hw.elim
      | value whole =>
          rw [tagStep] at hstep
          obtain ⟨-, hstep⟩ := Option.ite_none_right_eq_some.mp hstep
          rw [← Option.some.inj hstep, tableStep]
          have hbump := agrees_bump (agrees_storeOffset h t) (storeOffset_offset t w)
          have hindex : (storeOffset t w).increment_index = whole := hw
          rw [hindex] at hbump
          exact hbump

theorem agrees_tags {tags : List Tag} :
    ∀ {p : Pending} {s : Place × Wdt} {w' : Wdt} {g : Given}, Agrees s.2 g → Waits s p →
    (tags.foldlM tagStep s).bind tagsEnd = some w' →
    Agrees w' (applyAll g (tableSettings p tags)) := by
  induction tags with
  | nil =>
      intro p s w' g h hw hend
      obtain ⟨place, w⟩ := s
      change tagsEnd (place, w) = some w' at hend
      cases place with
      | head =>
          cases p with
          | nothing =>
              rw [← Option.some.inj hend]
              exact h
          | offset n => exact hw.elim
          | value whole => exact hw.elim
      | afterOffset =>
          cases p with
          | nothing => exact hw.elim
          | value whole => exact hw.elim
          | offset n =>
              obtain ⟨-, hend⟩ := Option.ite_none_right_eq_some.mp hend
              rw [← Option.some.inj hend]
              exact (h.setVal 0xFFFFFFFF).register (by simpa [Wdt.setVal] using hw.1)
      | afterValue => exact absurd hend (by simp [tagsEnd])
  | cons t tags ih =>
      intro p s w' g h hw hrun
      rw [List.foldlM_cons] at hrun
      obtain ⟨s', hfold, hend⟩ := Option.bind_eq_some_iff.mp hrun
      obtain ⟨s₁, hstep, hrest⟩ := Option.bind_eq_some_iff.mp hfold
      obtain ⟨hagrees, hwaits⟩ := agrees_tag h hw hstep
      have htable : tableSettings p (t :: tags) = (tableStep p t).1 ++
          tableSettings (tableStep p t).2 tags := by
        cases p <;> rfl
      rw [htable, applyAll_append]
      exact ih hagrees hwaits (Option.bind_eq_some_iff.mpr ⟨s', hrest, hend⟩)

theorem agrees_initial (i : Input) : Agrees (initial i) defaults :=
  ⟨(Nat.zero_max _).symm, rfl, rfl, rfl, rfl, rfl, rfl⟩

theorem agrees_init {h : Hwinfo} {w : Wdt} {g : Given} (hw : Agrees w g) :
    Agrees (parse_hwinfo_init h w)
      (applyAll g (h.wdog.map fun t => Setting.reach t.len).toList) := by
  unfold parse_hwinfo_init
  cases h.wdog with
  | none => exact hw
  | some t => exact { hw.reach t.len with }

theorem agrees_table {h : Hwinfo} {w : Wdt} {g : Given} (hw : Agrees w g) :
    Agrees (parse_hwinfo_bitswap h w).1 (applyAll g (table h).1) ∧
      (parse_hwinfo_bitswap h w).1.increment_index = w.increment_index ∧
      (parse_hwinfo_bitswap h w).2 = (table h).2 := by
  unfold parse_hwinfo_bitswap table
  cases h.bitswap with
  | some tags => exact ⟨hw.setOperation .BITSWAP, rfl, rfl⟩
  | none =>
      cases h.regwrite with
      | some tags => exact ⟨hw.setOperation .WRITE, rfl, rfl⟩
      | none => exact ⟨hw, rfl, rfl⟩

theorem increment_index_hwinfo_opt (tags : List Tag) :
    ∀ w : Wdt, (parse_hwinfo_opt w tags).increment_index = w.increment_index := by
  induction tags with
  | nil => exact fun w => rfl
  | cons t tags ih =>
      intro w
      rw [parse_hwinfo_opt]
      split_ifs
      · exact ih _
      · exact ih _
      · exact ih _
      · exact ih _
      · exact ih _
      · rfl

theorem agrees_hwinfo {h : Hwinfo} {w w' : Wdt} {g : Given} (hw : Agrees w g)
    (hi : w.increment_index = true) (hrun : wd_parse_hwinfo h w = some w') :
    Agrees w' (applyAll g
        ((h.wdog.map fun t => Setting.reach t.len).toList ++ hwinfoSettings (h.options.getD []) ++
      (table h).1 ++ tableSettings .nothing (table h).2)) := by
  have hopt := agrees_hwinfo_opt (h.options.getD []) (agrees_init (h := h) hw)
  obtain ⟨hagrees, hindex, htags⟩ := agrees_table (h := h) hopt
  have hinit : (parse_hwinfo_init h w).increment_index = true := by
    unfold parse_hwinfo_init
    cases h.wdog <;> exact hi
  rw [increment_index_hwinfo_opt, hinit] at hindex
  unfold wd_parse_hwinfo at hrun
  dsimp only at hrun
  rw [htags] at hrun
  rw [applyAll_append, applyAll_append, applyAll_append]
  exact agrees_tags (s := (Place.head, _)) hagrees hindex hrun

/-- **The state at the loop** is what was given. -/
theorem agrees_main {i : Input} {w : Wdt} (h : main i = some w) : Agrees w (given i) := by
  obtain ⟨w₁, hhwinfo, h⟩ := Option.bind_eq_some_iff.mp h
  obtain ⟨w₂, hopts, h⟩ := Option.bind_eq_some_iff.mp h
  obtain ⟨-, h⟩ := Option.ite_none_right_eq_some.mp h
  rw [← Option.some.inj h, given, settings, applyAll_append]
  exact agrees_opts (agrees_hwinfo (agrees_initial i) rfl hhwinfo) hopts

/-! ### Accesses -/

namespace Given

/-- The registers that are accessed, and with how many bytes, where `value` is read first from the
enable register. -/
def accesses (g : Given) (value : ℕ) : List Access :=
  (if g.enableMask ≠ 0 then
    ⟨g.enableOffset, g.enableWidth / 8⟩ ::
      if value &&& g.enableMask ≠ g.enableMask then [⟨g.enableOffset, g.writeWidth / 8⟩] else []
  else []) ++
  g.registers.flatMap fun offset =>
    match g.operation with
    | some .BITSWAP => [⟨offset, g.enableWidth / 8⟩, ⟨offset, g.writeWidth / 8⟩]
    | some .WRITE => [⟨offset, g.writeWidth / 8⟩]
    | none => []

end Given

theorem mem_accesses {w : Wdt} {g : Given} (h : Agrees w g) (value : ℕ) {a : Access} :
    a ∈ g.accesses value ↔ a ∈ enabling w value ∨ a ∈ pass w := by
  have hpass : pass w = g.registers.flatMap fun offset => kick w offset := by
    rw [← h.registers, List.flatMap_map]
    rfl
  rw [Given.accesses, List.mem_append, hpass]
  unfold enabling kick
  rw [h.enableOffset, h.enableMask, h.enableWidth, h.writeWidth, h.operation]
  refine or_congr ?_ Iff.rfl
  split
  case isTrue =>
      split
      case isTrue => simp
      case isFalse => exact Iff.rfl
  case isFalse => exact Iff.rfl

/-- An access is one of the enable register or of a pass. -/
theorem mem_trace {w : Wdt} {value : ℕ} {a : Access} :
    (∃ n, a ∈ trace w value n) ↔ a ∈ enabling w value ∨ a ∈ pass w := by
  constructor
  · rintro ⟨n, h⟩
    rcases List.mem_append.mp h with h | h
    · exact .inl h
    · obtain ⟨l, hl, ha⟩ := List.mem_flatten.mp h
      rw [List.eq_of_mem_replicate hl] at ha
      exact .inr ha
  · rintro (h | h)
    · exact ⟨0, List.mem_append_left _ h⟩
    · exact ⟨1, List.mem_append_right _ (by simpa using h)⟩

theorem le_foldl_max_iff {l : List ℕ} {k m : ℕ} : k ≤ l.foldl max m ↔ k ≤ m ∨ ∃ n ∈ l, k ≤ n := by
  induction l generalizing m with
  | nil => simp
  | cons n l ih => simp [ih, or_assoc]

/-- There is always a number for the length. -/
theorem lengths_ne_nil (l : List Setting) :
    ∀ {g : Given}, g.lengths ≠ [] → (applyAll g l).lengths ≠ [] := by
  induction l with
  | nil =>
      intro g hg
      exact hg
  | cons s l ih =>
      intro g hg
      refine ih ?_
      cases s with
      | length n => exact List.cons_ne_nil _ _
      | reach n => exact List.append_ne_nil_of_right_ne_nil _ (List.cons_ne_nil _ _)
      | _ => exact hg

/-- **The mapping**: the program stays within the bytes it mapped, in every pass, if and only if
every register that it accesses ends at or before one of the numbers given for the length: the last
`-l`, or without one the default or the length of the device, or an offset that was given after
that. -/
theorem mapped_iff {i : Input} {w : Wdt} (h : main i = some w) (value : ℕ) :
    (∀ n, ∀ a ∈ trace w value n, a.offset + a.bytes ≤ w.len) ↔
      ∀ a ∈ (given i).accesses value, ∃ n ∈ (given i).lengths, a.offset + a.bytes ≤ n := by
  have hagrees := agrees_main h
  have hfits : ∀ k, k ≤ w.len ↔ ∃ n ∈ (given i).lengths, k ≤ n := by
    intro k
    rw [hagrees.len, le_foldl_max_iff]
    refine ⟨?_, .inr⟩
    rintro (hk | hex)
    · obtain ⟨n, hn⟩ := List.exists_mem_of_ne_nil _
        (lengths_ne_nil (settings i) (g := defaults) (List.cons_ne_nil _ _))
      exact ⟨n, hn, hk.trans (Nat.zero_le n)⟩
    · exact hex
  constructor
  · intro hall a ha
    obtain ⟨n, hn⟩ := mem_trace.mpr ((mem_accesses hagrees value).mp ha)
    exact (hfits _).mp (hall n a hn)
  · intro hall n a ha
    exact (hfits _).mpr (hall a ((mem_accesses hagrees value).mpr (mem_trace.mp ⟨n, ha⟩)))

/-- An empty hwinfo section, and options after a base address and a kick time. -/
def commandLine (opts : List Opt) : Input where
  hwinfo := ⟨none, none, none, none⟩
  opts := ⟨.a, "0x107d200000".toList, []⟩ :: ⟨.t, "500".toList, []⟩ :: opts
  enable_condition := 0
  write_reg := fun _ => (0, 0)
  bitswap_value := 0
  erange := false
  configured := true
  mapped := true

/-- The options of the board's boot image. -/
def boardOptions : List Opt :=
  [⟨.W, "0x24:0x5A028E4C".toList, []⟩, ⟨.W, "0x1c:0x5A000020".toList, []⟩]

theorem mapped_iff_board : ∃ w, main (commandLine boardOptions) = some w ∧
    ∀ n, ∀ a ∈ trace w 0 n, a.offset + a.bytes ≤ w.len := by
  have hsome : (main (commandLine boardOptions)).isSome = true := by decide +kernel
  obtain ⟨w, hw⟩ := Option.isSome_iff_exists.mp hsome
  refine ⟨w, hw, (mapped_iff hw 0).mpr ?_⟩
  decide +kernel

/-- A register at the end of the default length, and one before a smaller length: both are accessed
outside. -/
theorem register_at_end_is_outside :
    (∃ w, main (commandLine [⟨.W, "0x1000:1".toList, []⟩]) = some w ∧
        ∃ a ∈ trace w 0 1, ¬ a.offset + a.bytes ≤ w.len) ∧
      ∃ w, main (commandLine [⟨.W, "0x24:1".toList, []⟩, ⟨.l, "0x20".toList, []⟩]) = some w ∧
        ∃ a ∈ trace w 0 1, ¬ a.offset + a.bytes ≤ w.len := by
  constructor
  · have hmap : ((main (commandLine [⟨.W, "0x1000:1".toList, []⟩])).map fun w =>
        (trace w 0 1).all fun a => a.offset + a.bytes ≤ w.len) = some false := by decide +kernel
    obtain ⟨w, hw, hall⟩ := Option.map_eq_some_iff.mp hmap
    obtain ⟨a, ha, hout⟩ := List.all_eq_false.mp hall
    exact ⟨w, hw, a, ha, by simpa using hout⟩
  · have hmap : ((main (commandLine [⟨.W, "0x24:1".toList, []⟩, ⟨.l, "0x20".toList, []⟩])).map
      fun w =>
        (trace w 0 1).all fun a => a.offset + a.bytes ≤ w.len) = some false := by decide +kernel
    obtain ⟨w, hw, hall⟩ := Option.map_eq_some_iff.mp hmap
    obtain ⟨a, ha, hout⟩ := List.all_eq_false.mp hall
    exact ⟨w, hw, a, ha, by simpa using hout⟩

end Wdtkick
