import RpiBsp.Sdmmc.Definitions
import RpiBsp.Support.Slots
import RpiBsp.Support.Strto

/-!
# Sdmmc — the options of a host controller

`sdio_options`: the option string of a controller, taken apart with `getsubopt` and stored in its
configuration.  Three of the options append to arrays of the configuration.

* `handle_tables` — a suboption changes these arrays by the entry it stands for, and by nothing
else;
* `sdio_options_stores_iff` — every entry is stored where it should be, unless there are more of a
  kind than its array has slots.

A store outside an array is `none`: nothing is said of what follows it.
-/

namespace Sdmmc.Options

open Support

/-! ### Numbers and pairs -/

/-- `sdio_parse_number64`, of a string that may be `NULL`; `none` is `SDIO_INVALID_NUM`. -/
def sdio_parse_number64 : Option Text → Option ℕ
  | none => none
  | some s =>
    let p := strtol64 0 s
    if s = [] ∨ p.val = 0 ∧ p.rest = s ∨ 2 ^ 63 ≤ p.val ∨ p.rest ≠ [] then none else some p.val

/-- `sdio_parse_number`: the same through an `int`. -/
def sdio_parse_number : Option Text → Option ℕ
  | none => none
  | some s =>
    let p := strtol64 0 s
    let number := p.val % 2 ^ 32
    if s = [] ∨ number = 0 ∧ p.rest = s ∨ 2 ^ 31 ≤ number ∨ p.rest ≠ [] then none else some number

/-- `sdio_strchr`: what is in front of the first token that is not escaped, without the escapes, and
what follows it. -/
def sdio_strchr (token : Char) : Text → Text × Option Text
  | [] => ([], none)
  | '\\' :: c :: s => ((sdio_strchr token s).1.cons c, (sdio_strchr token s).2)
  | c :: s =>
    if c = token then ([], some s) else ((sdio_strchr token s).1.cons c, (sdio_strchr token s).2)

/-- `sdio_parse_tuple`, for two entries. -/
def sdio_parse_tuple (s : Text) : Text × Option Text :=
  ((sdio_strchr ':' s).1, (sdio_strchr ':' s).2.map fun t => (sdio_strchr ':' t).1)

/-- The `int` that a 64-bit number is stored as. -/
def toInt (n : ℕ) : ℤ := if n % 2 ^ 32 < 2 ^ 31 then n % 2 ^ 32 else (n % 2 ^ 32 : ℤ) - 2 ^ 32

/-! ### The configuration -/

def HC_CAP_SLOT_TYPE_EMBEDDED : BitVec 64 := 1 <<< 0
def HC_CAP_DMA : BitVec 64 := 1 <<< 2
def HC_CAP_BW4 : BitVec 64 := 1 <<< 4
def HC_CAP_BW8 : BitVec 64 := 1 <<< 5
def HC_CAP_BW_MSK : BitVec 64 := HC_CAP_BW4 ||| HC_CAP_BW8
def HC_CAP_ACMD12 : BitVec 64 := 1 <<< 6
def HC_CAP_ACMD23 : BitVec 64 := 1 <<< 7
def HC_CAP_HS : BitVec 64 := 1 <<< 9
def HC_CAP_SDR12 : BitVec 64 := 1 <<< 10
def HC_CAP_SDR25 : BitVec 64 := 1 <<< 11
def HC_CAP_SDR50 : BitVec 64 := 1 <<< 12
def HC_CAP_SDR104 : BitVec 64 := 1 <<< 13
def HC_CAP_DDR50 : BitVec 64 := 1 <<< 14
def HC_CAP_HS200 : BitVec 64 := 1 <<< 15
def HC_CAP_HS400 : BitVec 64 := 1 <<< 16
def HC_CAP_CD_INTR : BitVec 64 := 1 <<< 32
def HC_CAP_HS400ES : BitVec 64 := 1 <<< 34
def HC_CAP_CD_WP : BitVec 64 := 1 <<< 35
def HC_CAP_TIMING_MSK : BitVec 64 :=
  HC_CAP_HS ||| HC_CAP_DDR50 ||| HC_CAP_SDR12 ||| HC_CAP_SDR25 ||| HC_CAP_SDR50 |||
    HC_CAP_SDR104 ||| HC_CAP_HS200 ||| HC_CAP_HS400 ||| HC_CAP_HS400ES
def HC_FLAG_DEV_MMC : BitVec 32 := 1 <<< 5

def SDIO_NAME_MAX : ℕ := 64
def SDIO_PRIORITY : ℕ := 21
def SDIO_MAX_IRQ : ℕ := 4
def SDIO_MAX_DMA : ℕ := 4
def SDIO_MAX_ADDR : ℕ := 6

/-- The arrays of `sdio_hc_cfg_t` with their counts.  A slot of `addr` is that of `base_addr` and
that of `base_addr_size` with the same index. -/
structure Tables where
  irq : Slots ℕ
  dma : Slots ℕ
  addr : Slots (ℕ × ℤ)

/-- What `sdio_options` writes of `sdio_hc_cfg_t`, `sdio_hc_t` and `sdio_ctrl_t`. -/
structure Hc where
  name : Text
  verbosity : ℤ
  caps : BitVec 64
  vid : ℕ
  did : ℕ
  idx : ℤ
  clk : ℕ
  idle_time : ℕ
  sleep_time : ℕ
  options : Option Text
  hsoptions : Option Text
  tables : Tables
  hc_caps : BitVec 64
  hc_flags : BitVec 32
  priority : ℕ
  drv_type : ℕ
  ctrl_scan : Bool
  ctrl_verbosity : ℤ
  ctrl_priority : ℕ

/-- `OPTION_*`. -/
inductive Opt where
  | disable_bus_mstr
  | disable_ac_12
  | disable_ac_23
  | emmc
  | cd_nowp
  | priority
  | hc
  | vid
  | did
  | idx
  | base_addr
  | irq
  | dma
  | operation_clk
  | bus_width
  | bus_smart
  | pwr_mgmt
  | board_specific
  | host_specific
  | drv_type
  | verbose
deriving DecidableEq, Repr

/-- `opts`. -/
def opts : List (Text × Opt) :=
  [("~bmstr".toList, .disable_bus_mstr), ("~ac12".toList, .disable_ac_12),
    ("~ac23".toList, .disable_ac_23),
    ("emmc".toList, .emmc), ("nowp".toList, .cd_nowp), ("priority".toList, .priority),
    ("hc".toList, .hc),
    ("vid".toList, .vid), ("did".toList, .did), ("idx".toList, .idx), ("addr".toList, .base_addr),
    ("irq".toList, .irq), ("dma".toList, .dma), ("clk".toList, .operation_clk),
    ("bw".toList, .bus_width),
    ("timing".toList, .bus_smart), ("pm".toList, .pwr_mgmt), ("bs".toList, .board_specific),
    ("hs".toList, .host_specific), ("drv_type".toList, .drv_type), ("verbose".toList, .verbose)]

/-- The options that take no argument, and those that need one. -/
def Opt.without_args (opt : Opt) : Bool :=
  opt = .disable_bus_mstr ∨ opt = .disable_ac_12 ∨ opt = .disable_ac_23 ∨ opt = .emmc ∨
    opt = .cd_nowp

def Opt.with_args (opt : Opt) : Bool := ¬ opt.without_args ∧ opt ≠ .verbose

/-! ### Suboptions -/

/-- The suboptions that `getsubopt` takes off the string one after the other, up to its end. -/
def subopts : Text → List Text
  | [] => []
  | c :: s =>
    if c = ',' then [] :: subopts s
    else match subopts s with
      | [] => [[c]]
      | t :: ts => (c :: t) :: ts

/-- `getsubopt`, of one suboption: the option, and its value if there is a `=`; `none` is -1. -/
def getsubopt (sub : Text) : Option (Opt × Option Text) :=
  let name := sub.takeWhile (· ≠ '=')
  let value := (sub.dropWhile (· ≠ '=')).tail?
  (opts.lookup name).map fun opt => (opt, value)

/-- `strtok_r` with the delimiter `:`, to the end: the parts that are not empty. -/
def tokens (s : Text) : List Text := (s.splitOn ':').filter (· ≠ [])

/-- The loop over the tokens of `bw` and `timing`: the status, `ocap` and `ncap`. -/
def capLoop (table : List (Text × BitVec 64)) : List Text → BitVec 64 → BitVec 64 →
    Errno × BitVec 64 × BitVec 64
  | [], ocap, ncap => (.eok, ocap, ncap)
  | value :: values, ocap, ncap =>
    let neg := value.head? = some '~'
    match table.lookup (if neg then value.tail else value) with
    | none => (.einval, ocap, ncap)
    | some cap =>
      if neg then capLoop table values ocap (ncap ||| cap)
      else capLoop table values (ocap ||| cap) ncap

def bwCaps : List (Text × BitVec 64) := [("4".toList, HC_CAP_BW4), ("8".toList, HC_CAP_BW8)]

def timingCaps : List (Text × BitVec 64) :=
  [("hs".toList, HC_CAP_HS), ("ddr".toList, HC_CAP_DDR50 ||| HC_CAP_HS),
    ("sdr".toList, HC_CAP_SDR12 ||| HC_CAP_SDR25 ||| HC_CAP_SDR50 ||| HC_CAP_SDR104 |||
      HC_CAP_DDR50),
    ("sdr12".toList, HC_CAP_SDR12), ("sdr25".toList, HC_CAP_SDR25), ("sdr50".toList, HC_CAP_SDR50),
    ("sdr104".toList, HC_CAP_SDR104), ("hs200".toList, HC_CAP_HS200),
    ("hs400".toList, HC_CAP_HS400),
    ("hs400es".toList, HC_CAP_HS400ES)]

/-- What `bw` and `timing` do with the capabilities, also where a token is refused. -/
def setCaps (mask : BitVec 64) (hc : Hc) (r : Errno × BitVec 64 × BitVec 64) : Errno × Hc :=
  let caps := if r.2.1 ≠ 0 then (hc.caps &&& ~~~mask) ||| r.2.1 else hc.caps
  (r.1, { hc with caps := if r.2.2 ≠ 0 then caps &&& ~~~r.2.2 else caps })

/-- An option that takes a number: it is stored, or refused. -/
def number (hc : Hc) (value : Option Text) (valid : ℕ → Bool) (store : ℕ → Option Hc) :
    Option (Errno × Hc) :=
  match sdio_parse_number value with
  | none => some (.einval, hc)
  | some val => if valid val then (store val).map fun hc => (.eok, hc) else some (.einval, hc)

/-- The lowest and the highest priority that the scheduler gives. -/
structure Sched where
  min : ℕ
  max : ℕ

/-- The body of the `switch`; `none` is a store outside an array. -/
def action (sched : Sched) (hc : Hc) (opt : Opt) (value : Option Text) : Option (Errno × Hc) :=
  match opt with
  | .disable_bus_mstr => some (.eok, { hc with caps := hc.caps &&& ~~~HC_CAP_DMA })
  | .disable_ac_12 => some (.eok, { hc with caps := hc.caps &&& ~~~HC_CAP_ACMD12 })
  | .disable_ac_23 => some (.eok, { hc with caps := hc.caps &&& ~~~HC_CAP_ACMD23 })
  | .emmc => some (.eok, { hc with
      hc_caps := hc.hc_caps ||| HC_CAP_SLOT_TYPE_EMBEDDED
      hc_flags := hc.hc_flags ||| HC_FLAG_DEV_MMC
      caps := hc.caps &&& ~~~HC_CAP_CD_INTR })
  | .cd_nowp => some (.eok, { hc with caps := hc.caps &&& ~~~HC_CAP_CD_WP })
  | .priority => number hc value (fun val => sched.min ≤ val ∧ val ≤ sched.max) fun val =>
      some { hc with priority := val }
  | .hc => some (.eok, { hc with name := (value.getD []).take (SDIO_NAME_MAX - 1) })
  | .vid => number hc value (fun _ => true) fun val => some { hc with vid := val % 2 ^ 16 }
  | .did => number hc value (fun _ => true) fun val => some { hc with did := val % 2 ^ 16 }
  | .idx => number hc value (fun _ => true) fun val => some { hc with idx := val }
  | .base_addr =>
    let argstr := sdio_parse_tuple (value.getD [])
    match sdio_parse_number64 argstr.1 with
    | none => some (.eok, hc)
    | some base =>
      let put := fun old : ℕ × ℤ => (base, ((sdio_parse_number64 argstr.2).map toInt).getD old.2)
      (hc.tables.addr.push SDIO_MAX_ADDR put).map fun addr =>
        (.eok, { hc with tables := { hc.tables with addr := addr } })
  | .irq => number hc value (fun _ => true) fun val =>
      (hc.tables.irq.push SDIO_MAX_IRQ fun _ => val).map fun irq =>
        { hc with tables := { hc.tables with irq := irq } }
  | .dma => number hc value (fun _ => true) fun val =>
      (hc.tables.dma.push SDIO_MAX_DMA fun _ => val).map fun dma =>
        { hc with tables := { hc.tables with dma := dma } }
  | .operation_clk => number hc value (fun _ => true) fun val => some { hc with clk := val }
  | .bus_width => some (setCaps HC_CAP_BW_MSK hc (capLoop bwCaps (tokens (value.getD [])) 0 0))
  | .bus_smart =>
      some (setCaps HC_CAP_TIMING_MSK hc (capLoop timingCaps (tokens (value.getD [])) 0 0))
  | .pwr_mgmt =>
    let argstr := sdio_parse_tuple (value.getD [])
    some (.eok, { hc with
      idle_time := (sdio_parse_number argstr.1).getD hc.idle_time
      sleep_time := (sdio_parse_number argstr.2).getD hc.sleep_time })
  | .board_specific => some (.eok, { hc with options := value })
  | .host_specific => some (.eok, { hc with hsoptions := value })
  | .drv_type => number hc value (fun val => val ≤ 4) fun val => some { hc with drv_type := val }
  | .verbose =>
    match value with
    | none => some (.eok, { hc with verbosity := hc.verbosity + 1 })
    | some value => number hc value (fun _ => true) fun val => some { hc with verbosity := val }

/-- A round of the loop: the suboption is looked up, its argument is checked, and it is stored. -/
def handle (sched : Sched) (hc : Hc) (sub : Text) : Option (Errno × Hc) :=
  match getsubopt sub with
  | none => some (.einval, hc)
  | some (opt, value) =>
    if opt.without_args ∧ value ≠ none then some (.einval, hc)
    else if opt.with_args ∧ (value = none ∨ value = some []) then some (.einval, hc)
    else action sched hc opt value

/-- The loop, up to the first suboption that is refused. -/
def loop (sched : Sched) : List Text → Hc → Option (Errno × Hc)
  | [], hc => some (.eok, hc)
  | sub :: subs, hc =>
    match handle sched hc sub with
    | none => none
    | some (.eok, hc) => loop sched subs hc
    | some (status, hc) => some (status, hc)

/-- `sdio_options`. -/
def sdio_options (sched : Sched) (hc : Hc) (options : Text) : Option (Errno × Hc) :=
  (loop sched (subopts options) hc).map fun r =>
    let hc := r.2
    if hc.vid = 0 ∧ hc.name = [] ∧ hc.idx = -1 then
      (r.1, { hc with
        ctrl_scan := true
        ctrl_verbosity := hc.verbosity
        ctrl_priority := if hc.priority ≠ SDIO_PRIORITY then hc.priority else hc.ctrl_priority })
    else (r.1, hc)

/-! ### Entries -/

/-- An entry that an option appends. -/
inductive Entry where
  | irq (val : ℕ)
  | dma (val : ℕ)
  | addr (base : ℕ) (size : Option ℤ)
deriving DecidableEq, Repr

/-- The entry that a suboption stands for: an interrupt or a channel with a valid number, or an
address with a valid number and, if that is valid as well, a size. -/
def entry (sub : Text) : Option Entry :=
  match getsubopt sub with
  | some (.irq, value) => (sdio_parse_number value).map .irq
  | some (.dma, value) => (sdio_parse_number value).map .dma
  | some (.base_addr, some value) =>
    (sdio_parse_number64 (sdio_parse_tuple value).1).map fun base =>
      .addr base ((sdio_parse_number64 (sdio_parse_tuple value).2).map toInt)
  | _ => none

/-- An entry appended to its array. -/
def Tables.put (t : Tables) : Entry → Option Tables
  | .irq val => (t.irq.push SDIO_MAX_IRQ fun _ => val).map fun irq => { t with irq := irq }
  | .dma val => (t.dma.push SDIO_MAX_DMA fun _ => val).map fun dma => { t with dma := dma }
  | .addr base size =>
    (t.addr.push SDIO_MAX_ADDR fun old => (base, size.getD old.2)).map fun addr =>
      { t with addr := addr }

def Tables.empty : Tables where
  irq := ⟨0, fun _ => 0⟩
  dma := ⟨0, fun _ => 0⟩
  addr := ⟨0, fun _ => (0, 0)⟩

/-- A configuration that nothing is stored in yet. -/
def blank : Hc where
  name := []
  verbosity := 0
  caps := 0
  vid := 0
  did := 0
  idx := -1
  clk := 0
  idle_time := 0
  sleep_time := 0
  options := none
  hsoptions := none
  tables := .empty
  hc_caps := 0
  hc_flags := 0
  priority := SDIO_PRIORITY
  drv_type := 0
  ctrl_scan := false
  ctrl_verbosity := 0
  ctrl_priority := SDIO_PRIORITY

/-- The status of a suboption, which does not depend on the configuration. -/
def verdict (sched : Sched) (sub : Text) : Errno :=
  ((handle sched blank sub).map Prod.fst).getD .eok

/-- The entries that are accepted: those in front of the first suboption that is refused. -/
def accepted (sched : Sched) : List Text → List Entry
  | [] => []
  | sub :: subs =>
    (entry sub).toList ++ if verdict sched sub = .eok then accepted sched subs else []

/-! ### What a suboption does to the tables -/

/-- A step that leaves the tables as they are, with a status of its own. -/
def Leaves (step : Hc → Option (Errno × Hc)) : Prop :=
  ∃ status, ∀ hc, ∃ hc', step hc = some (status, hc') ∧ hc'.tables = hc.tables

/-- A step that appends an entry, if there is room for it. -/
def Puts (step : Hc → Option (Errno × Hc)) (e : Entry) : Prop :=
  ∀ hc, (step hc).map (fun r => (r.1, r.2.tables)) = (hc.tables.put e).map fun t => (.eok, t)

theorem Leaves.const (status : Errno) : Leaves fun hc => some (status, hc) :=
  ⟨status, fun hc => ⟨hc, rfl, rfl⟩⟩

theorem Leaves.update {status : Errno} {f : Hc → Hc} (h : ∀ hc, (f hc).tables = hc.tables) :
    Leaves fun hc => some (status, f hc) :=
  ⟨status, fun hc => ⟨f hc, rfl, h hc⟩⟩

/-- A number that is stored outside the tables. -/
theorem number_leaves (value : Option Text) (valid : ℕ → Bool) {store : Hc → ℕ → Hc}
    (h : ∀ hc val, (store hc val).tables = hc.tables) :
    Leaves fun hc => number hc value valid fun val => some (store hc val) := by
  rcases hval : sdio_parse_number value with _ | val
  case none =>
    simp only [number, hval]
    exact .const _
  case some =>
    simp only [number, hval]
    split
    · exact .update fun hc => h hc val
    · exact .const _

/-- A number that is stored in a table, or refused. -/
theorem number_puts {value : Option Text} {val : ℕ} (hval : sdio_parse_number value = some val)
    {e : Entry}
    {store : Hc → ℕ → Option Hc} (h : ∀ hc, (store hc val).map (·.tables) = hc.tables.put e) :
    Puts (fun hc => number hc value (fun _ => true) (store hc)) e := by
  intro hc
  simp only [number, hval, if_true, ← h hc, Option.map_map]
  rfl

theorem action_leaves (sched : Sched) {opt : Opt} (value : Option Text) (hirq : opt ≠ .irq)
    (hdma : opt ≠ .dma)
    (haddr : opt ≠ .base_addr) : Leaves fun hc => action sched hc opt value := by
  cases opt with
  | irq => exact absurd rfl hirq
  | dma => exact absurd rfl hdma
  | base_addr => exact absurd rfl haddr
  | priority => exact number_leaves _ _ fun _ _ => rfl
  | vid => exact number_leaves _ _ fun _ _ => rfl
  | did => exact number_leaves _ _ fun _ _ => rfl
  | idx => exact number_leaves _ _ fun _ _ => rfl
  | operation_clk => exact number_leaves _ _ fun _ _ => rfl
  | drv_type => exact number_leaves _ _ fun _ _ => rfl
  | verbose =>
      cases value with
      | none => exact .update fun _ => rfl
      | some value => exact number_leaves _ _ fun _ _ => rfl
  | _ => exact .update fun _ => rfl

/-- An option that is given as it should be is acted on. -/
theorem handle_eq (sched : Sched) (hc : Hc) {sub : Text} {opt : Opt} {value : Option Text}
    (h : getsubopt sub = some (opt, value)) (hwithout : ¬ (opt.without_args ∧ value ≠ none))
    (hwith : ¬ (opt.with_args ∧ (value = none ∨ value = some []))) :
    handle sched hc sub = action sched hc opt value := by
  simp only [handle, h, if_neg hwithout, if_neg hwith]

/-- A suboption that stands for no entry. -/
theorem handle_leaves (sched : Sched) {sub : Text} (h : entry sub = none) :
    Leaves fun hc => handle sched hc sub := by
  rcases hopt : getsubopt sub with _ | ⟨opt, value⟩
  case none =>
    simp only [handle, hopt]
    exact .const _
  case some =>
    simp only [handle, hopt]
    split
    · exact .const _
    split
    · exact .const _
    case isFalse.isFalse hwith =>
      simp only [entry, hopt] at h
      cases opt with
      | irq =>
          have hval : sdio_parse_number value = none := by simpa using h
          simp only [action, number, hval]
          exact .const _
      | dma =>
          have hval : sdio_parse_number value = none := by simpa using h
          simp only [action, number, hval]
          exact .const _
      | base_addr =>
          cases value with
          | none => exact absurd ⟨rfl, .inl rfl⟩ hwith
          | some value =>
              have hval : sdio_parse_number64 (sdio_parse_tuple value).1 = none := by simpa using h
              simp only [action, Option.getD_some, hval]
              exact .const _
      | _ => exact action_leaves sched value (by simp) (by simp) (by simp)

/-- No text that a number is read from is empty. -/
theorem parse_number_ne {value : Option Text} {val : ℕ} (h : sdio_parse_number value = some val) :
    value ≠ none ∧ value ≠ some [] := by
  rcases value with _ | s
  case none => exact absurd h (by simp [sdio_parse_number])
  case some =>
    refine ⟨by simp, ?_⟩
    intro hs
    obtain rfl := Option.some.inj hs
    simp [sdio_parse_number] at h

/-- A suboption that stands for an entry. -/
theorem handle_puts (sched : Sched) {sub : Text} {e : Entry} (h : entry sub = some e) :
    Puts (fun hc => handle sched hc sub) e := by
  rcases hopt : getsubopt sub with _ | ⟨opt, value⟩
  case none => simp [entry, hopt] at h
  case some =>
    simp only [entry, hopt] at h
    have hact : value ≠ none ∧ value ≠ some [] → ¬ opt.without_args →
        ∀ hc, handle sched hc sub = action sched hc opt value := by
      rintro ⟨hne, hne'⟩ hwithout hc
      exact handle_eq sched hc hopt (fun hw => hwithout hw.1) fun hw => hw.2.elim hne hne'
    cases opt with
    | irq =>
        obtain ⟨val, hval, rfl⟩ := Option.map_eq_some_iff.mp h
        simp only [hact (parse_number_ne hval) (by decide)]
        exact number_puts hval fun hc => by simp [Tables.put, Function.comp_def]
    | dma =>
        obtain ⟨val, hval, rfl⟩ := Option.map_eq_some_iff.mp h
        simp only [hact (parse_number_ne hval) (by decide)]
        exact number_puts hval fun hc => by simp [Tables.put, Function.comp_def]
    | base_addr =>
        rcases value with _ | value
        case none => simp at h
        case some =>
          obtain ⟨base, hbase, rfl⟩ := Option.map_eq_some_iff.mp h
          have hne : value ≠ [] := by
            rintro rfl
            simp [sdio_parse_tuple, sdio_strchr, sdio_parse_number64] at hbase
          simp only [hact ⟨by simp, by simpa using hne⟩ (by decide)]
          intro hc
          simp only [action, Option.getD_some, hbase, Tables.put, Option.map_map]
          rfl
    | _ => simp at h

theorem verdict_of_leaves {sched : Sched} {sub : Text} (h : entry sub = none) (hc : Hc) :
    ∃ hc', handle sched hc sub = some (verdict sched sub, hc') ∧ hc'.tables = hc.tables := by
  obtain ⟨status, hrun⟩ := handle_leaves sched h
  obtain ⟨hc', hstep, -⟩ := hrun blank
  have hverdict : verdict sched sub = status := by simp [verdict, hstep]
  rw [hverdict]
  exact hrun hc

theorem verdict_of_puts {sched : Sched} {sub : Text} {e : Entry} (h : entry sub = some e) :
    verdict sched sub = .eok := by
  have hstep := handle_puts sched h blank
  have hroom : ∃ t, blank.tables.put e = some t := by
    cases e <;> exact ⟨_, rfl⟩
  obtain ⟨t, ht⟩ := hroom
  rw [ht] at hstep
  obtain ⟨r, hr, hrt⟩ := Option.map_eq_some_iff.mp hstep
  simp only [verdict, hr, Option.map_some, Option.getD_some]
  exact (Prod.mk.inj hrt).1

/-! ### What a string does to the tables -/

/-- One entry after the other. -/
def Tables.putAll : List Entry → Tables → Option Tables
  | [], t => some t
  | e :: es, t => (t.put e).bind (Tables.putAll es)

/-- **The tables follow the accepted entries**: the loop appends them in their order, as far as
there is room. -/
theorem loop_tables (sched : Sched) (subs : List Text) (hc : Hc) :
    (loop sched subs hc).map (fun r => r.2.tables) = hc.tables.putAll (accepted sched subs) := by
  induction subs generalizing hc with
  | nil => rfl
  | cons sub subs ih =>
      rcases he : entry sub with _ | e
      case none =>
        obtain ⟨hc', hstep, htables⟩ := @verdict_of_leaves sched sub he hc
        by_cases hv : verdict sched sub = .eok
        case pos =>
          rw [hv] at hstep
          simp only [loop, hstep, accepted, he, hv, if_true, Option.toList_none, List.nil_append,
            ih, htables]
        case neg =>
          have hloop : loop sched (sub :: subs) hc = some (verdict sched sub, hc') := by
            simp only [loop, hstep]
          simp only [hloop, accepted, he, hv, if_false, Option.toList_none, List.nil_append,
            Option.map_some, htables, Tables.putAll]
      case some =>
        have hstep := handle_puts sched he hc
        simp only [accepted, he, verdict_of_puts he, if_true, Option.toList_some,
          List.singleton_append, Tables.putAll]
        rcases ht : hc.tables.put e with _ | t
        case none =>
          rw [ht] at hstep
          have hnone : handle sched hc sub = none := by simpa using hstep
          simp [loop, hnone]
        case some =>
          rw [ht] at hstep
          obtain ⟨⟨status, hc'⟩, hr, hrt⟩ := Option.map_eq_some_iff.mp hstep
          obtain ⟨rfl, rfl⟩ := Prod.mk.inj hrt
          simp only [loop, hr, ih, Option.bind_some]

/-- The entries of each kind, as changes of a slot. -/
def irqs (es : List Entry) : List (ℕ → ℕ) :=
  es.filterMap fun
    | .irq val => some fun _ => val
    | _ => none

def dmas (es : List Entry) : List (ℕ → ℕ) :=
  es.filterMap fun
    | .dma val => some fun _ => val
    | _ => none

def addrs (es : List Entry) : List (ℕ × ℤ → ℕ × ℤ) :=
  es.filterMap fun
    | .addr base size => some fun old => (base, size.getD old.2)
    | _ => none

/-- The three kinds do not get in each other's way. -/
theorem putAll_eq_some_iff {es : List Entry} {t t' : Tables} : t.putAll es = some t' ↔
    Slots.pushAll SDIO_MAX_IRQ (irqs es) t.irq = some t'.irq ∧
      Slots.pushAll SDIO_MAX_DMA (dmas es) t.dma = some t'.dma ∧
      Slots.pushAll SDIO_MAX_ADDR (addrs es) t.addr = some t'.addr := by
  induction es generalizing t with
  | nil =>
      cases t
      cases t'
      simp [Tables.putAll, Slots.pushAll, irqs, dmas, addrs]
  | cons e es ih =>
      cases e with
      | irq val =>
          rcases hpush : t.irq.push SDIO_MAX_IRQ (fun _ => val) with _ | irq
          all_goals
            simp [Tables.putAll, Tables.put, hpush, ih, irqs, dmas, addrs, Slots.pushAll]
      | dma val =>
          rcases hpush : t.dma.push SDIO_MAX_DMA (fun _ => val) with _ | dma
          all_goals
            simp [Tables.putAll, Tables.put, hpush, ih, irqs, dmas, addrs, Slots.pushAll]
      | addr base size =>
          rcases hpush : t.addr.push SDIO_MAX_ADDR (fun old => (base, size.getD old.2)) with
            _ | addr
          all_goals
            simp [Tables.putAll, Tables.put, hpush, ih, irqs, dmas, addrs, Slots.pushAll]

/-- Every accepted entry is in its array at the count of its turn, and the counts are those of the
entries. -/
structure Stored (es : List Entry) (t t' : Tables) : Prop where
  irq : Slots.Appended (irqs es) t.irq t'.irq
  dma : Slots.Appended (dmas es) t.dma t'.dma
  addr : Slots.Appended (addrs es) t.addr t'.addr

/-- The arrays have a slot for every entry of their kind. -/
structure Room (es : List Entry) (t : Tables) : Prop where
  irq : irqs es = [] ∨ t.irq.count + (irqs es).length ≤ SDIO_MAX_IRQ
  dma : dmas es = [] ∨ t.dma.count + (dmas es).length ≤ SDIO_MAX_DMA
  addr : addrs es = [] ∨ t.addr.count + (addrs es).length ≤ SDIO_MAX_ADDR

theorem putAll_stored {es : List Entry} {t t' : Tables} (h : t.putAll es = some t') :
    Stored es t t' := by
  obtain ⟨hirq, hdma, haddr⟩ := putAll_eq_some_iff.mp h
  exact ⟨Slots.pushAll_appended _ _ _ hirq, Slots.pushAll_appended _ _ _ hdma,
    Slots.pushAll_appended _ _ _ haddr⟩

theorem putAll_isSome_iff {es : List Entry} {t : Tables} :
    (∃ t', t.putAll es = some t') ↔ Room es t := by
  constructor
  · rintro ⟨t', h⟩
    obtain ⟨hirq, hdma, haddr⟩ := putAll_eq_some_iff.mp h
    exact ⟨(Slots.pushAll_isSome _ _).mp (Option.isSome_of_eq_some hirq),
      (Slots.pushAll_isSome _ _).mp (Option.isSome_of_eq_some hdma),
      (Slots.pushAll_isSome _ _).mp (Option.isSome_of_eq_some haddr)⟩
  · rintro ⟨hirq, hdma, haddr⟩
    obtain ⟨irq, hirq⟩ := Option.isSome_iff_exists.mp ((Slots.pushAll_isSome _ _).mpr hirq)
    obtain ⟨dma, hdma⟩ := Option.isSome_iff_exists.mp ((Slots.pushAll_isSome _ _).mpr hdma)
    obtain ⟨addr, haddr⟩ := Option.isSome_iff_exists.mp ((Slots.pushAll_isSome _ _).mpr haddr)
    exact ⟨⟨irq, dma, addr⟩, putAll_eq_some_iff.mpr ⟨hirq, hdma, haddr⟩⟩

/-- The end of `sdio_options` leaves the tables alone. -/
theorem sdio_options_tables (sched : Sched) (hc : Hc) (options : Text) :
    (sdio_options sched hc options).map (fun r => r.2.tables) =
      hc.tables.putAll (accepted sched (subopts options)) := by
  rw [← loop_tables, sdio_options, Option.map_map]
  congr 1
  funext r
  simp only [Function.comp_apply]
  split <;> rfl

/-- **The options are stored.**  Of every option string, `sdio_options` stores each accepted
interrupt, channel and address inside its array, at the index of its turn, and counts them, exactly
where the arrays have room for them. -/
theorem sdio_options_stores_iff (sched : Sched) (hc : Hc) (options : Text) :
    (∃ status hc', sdio_options sched hc options = some (status, hc') ∧
      Stored (accepted sched (subopts options)) hc.tables hc'.tables) ↔
      Room (accepted sched (subopts options)) hc.tables := by
  have htables := sdio_options_tables sched hc options
  rw [← putAll_isSome_iff]
  constructor
  · rintro ⟨status, hc', hrun, -⟩
    rw [hrun] at htables
    exact ⟨hc'.tables, htables.symm⟩
  · rintro ⟨t', ht'⟩
    rw [ht'] at htables
    obtain ⟨⟨status, hc'⟩, hrun, rfl⟩ := Option.map_eq_some_iff.mp htables
    exact ⟨status, hc', hrun, putAll_stored ht'⟩

/-- Five interrupts. -/
theorem sdio_options_five :
    ¬ ∀ (sched : Sched) (hc : Hc) (options : Text), ∃ status hc',
      sdio_options sched hc options = some (status, hc') ∧
        Stored (accepted sched (subopts options)) hc.tables hc'.tables := by
  intro h
  obtain ⟨status, hc', hrun, -⟩ := h ⟨1, 255⟩ blank "irq=1,irq=2,irq=3,irq=4,irq=5".toList
  have hnone : sdio_options ⟨1, 255⟩ blank "irq=1,irq=2,irq=3,irq=4,irq=5".toList = none := rfl
  rw [hnone] at hrun
  exact absurd hrun (by simp)

end Sdmmc.Options
