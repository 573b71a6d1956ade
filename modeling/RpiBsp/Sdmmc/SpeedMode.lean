import RpiBsp.Sdmmc.Definitions
import Mathlib.Tactic.Cases

/-!
# Sdmmc — the speed mode of an MMC card

`mmc_init_bus` in `mmc.c` and the setup of the modes that it tries, from the fastest to the slowest,
with what leads to it: a card is attached, the bus is reset (`_sdio_reset` in `base.c`), there were
bus errors (`mmc_bus_error`), and the sampling point is tuned again (`mmc_retune`).  How each
switch, voltage, timing and wait comes out is an input.  Clock and width of the host controller are
left out.

* `Correct` — the flags are those of the timing of the host controller and the values that the card
accepted.
* `Sound` — what an initialisation needs: a mode is set up completely, and no flag of another one is
left.
* `init_run` — in every history of such initialisations, whenever one succeeds, the flags are
correct.
-/

namespace Sdmmc.Speed

/-! ### Definitions -/

inductive Mode where
  | ls
  | hs
  | ddr
  | hs200
  | hs400
  | hs400es
deriving DecidableEq, Repr

/-- `TIMING_*`. -/
inductive Timing where
  | ls
  | hs
  | ddr50
  | hs200
  | hs400
  | hs400es
deriving DecidableEq, Repr

/-- `ECSD_HS_TIMING_*`, without the driver type. -/
inductive HsTiming where
  | ls
  | hs
  | hs200
  | hs400
deriving DecidableEq, Repr

def ECSD_BUS_WIDTH_8 : ℕ := 2
def ECSD_BUS_WIDTH_DDR : ℕ := 4
def ECSD_BUS_WIDTH_ES : ℕ := 0x80

def DTR_MAX_HS52 : ℕ := 52000000
def DTR_MAX_HS26 : ℕ := 26000000
def DTR_HS_DEC : ℕ := 5000000

/-- The speed modes among `DEV_FLAG_*`. -/
structure Flags where
  hs : Bool := false
  ddr : Bool := false
  hs200 : Bool := false
  hs400 : Bool := false
  hs400es : Bool := false
deriving DecidableEq, Repr

def Flags.has (f : Flags) : Mode → Bool
  | .ls => false
  | .hs => f.hs
  | .ddr => f.ddr
  | .hs200 => f.hs200
  | .hs400 => f.hs400
  | .hs400es => f.hs400es

/-- The card and the controller: `DEV_CAP_*` for the speed modes, the card types and the voltages,
the width of the bus, and, not part of the code, the modes that `mmc_bus_error` has disabled. -/
structure Config where
  caps : Flags
  hs400_1_2v : Bool
  hs400_1_8v : Bool
  hs200_1_2v : Bool
  hs200_1_8v : Bool
  ddr_1_2v : Bool
  sv_1_2v : Bool
  sv_1_8v : Bool
  bw8 : Bool
  bw4 : Bool
  disabled : List Mode := []
deriving DecidableEq, Repr

/-- The state of a bus: `timing` is that of the controller, `hs_timing` and `bus_width` are what the
card has accepted. The last two fields are not part of the code: the modes whose setup failed in the
last initialisation, and that it succeeded. -/
structure Bus where
  cfg : Config
  dtr_max_hs : ℕ
  flags : Flags := {}
  timing : Timing := .ls
  hs_timing : HsTiming := .ls
  bus_width : ℕ := 0
  failed : List Mode := []
  settled : Bool := false
deriving DecidableEq, Repr

/-- How a switch comes out: the card accepts the value, and it is ready afterwards. -/
structure Switch where
  accepted : Bool := true
  ready : Bool := true
deriving DecidableEq, Repr

def Switch.ok (sw : Switch) : Bool := sw.accepted && sw.ready

/-- How the voltages come out. -/
structure Voltage where
  v12 : Bool := true
  v18 : Bool := true
deriving DecidableEq, Repr

/-- How `_mmc_init_hs200` comes out. -/
structure Hs200Run where
  width : Switch := {}
  timing : Switch := {}
  host : Bool := true
  tune : Bool := true
deriving DecidableEq, Repr

/-- How `mmc_init_hs400es` comes out. -/
structure EsRun where
  volt : Voltage := {}
  width : Switch := {}
  hs : Switch := {}
  hostHs : Bool := true
  widthEs : Switch := {}
  hs400 : Switch := {}
  host : Bool := true
deriving DecidableEq, Repr

/-- How `mmc_hs200_to_hs400` comes out. -/
structure To400Run where
  hs : Bool := true
  hostHs : Bool := true
  width : Switch := {}
  hs400 : Switch := {}
  host : Bool := true
  ready : Bool := true
deriving DecidableEq, Repr

/-- How `mmc_hs400_to_hs200` comes out. -/
structure To200Run where
  hs : Bool := true
  hostDdr : Bool := true
  ready : Bool := true
  width : Switch := {}
  readyWidth : Bool := true
  hostHs : Bool := true
  hs200 : Switch := {}
  host : Bool := true
  readyEnd : Bool := true
deriving DecidableEq, Repr

/-- How an initialisation comes out. -/
structure Outcomes where
  es : EsRun := {}
  volt400 : Voltage := {}
  pre400 : Hs200Run := {}
  to400 : To400Run := {}
  volt200 : Voltage := {}
  hs200 : Hs200Run := {}
  hs : Switch := {}
  hostHs : Bool := true
  voltDdr : Bool := true
  widthDdr : Switch := {}
  hostDdr : Bool := true
  width : Switch := {}
  hostLs : Bool := true
  blklen : Bool := true
deriving DecidableEq, Repr

/-! ### Steps -/

/-- A step of a setup: whether it returned `EOK`. -/
abbrev Step := Bus → Bool × Bus

/-- The next step, unless this one failed. -/
def Step.then (m n : Step) : Step := fun s => if (m s).1 then n (m s).2 else m s

def check (ok : Bool) : Step := fun s => (ok, s)

/-- `_mmc_switch` of `ECSD_HS_TIMING`. -/
def sendTiming (accepted : Bool) (v : HsTiming) : Step :=
  fun s => (accepted, if accepted then { s with hs_timing := v } else s)

/-- `mmc_switch` of `ECSD_HS_TIMING`. -/
def switchTiming (sw : Switch) (v : HsTiming) : Step := fun s =>
  (sw.ok, if sw.accepted then { s with hs_timing := v } else s)

/-- `mmc_switch` of `ECSD_BUS_WIDTH`. -/
def switchWidth (sw : Switch) (v : ℕ) : Step :=
  fun s => (sw.ok, if sw.accepted then { s with bus_width := v } else s)

/-- `sdio_timing`. -/
def sdio_timing (ok : Bool) (t : Timing) : Step :=
  fun s => (ok, if ok then { s with timing := t } else s)

def setFlags (f : Flags → Flags) : Step := fun s => (true, { s with flags := f s.flags })

/-- The voltages that a mode can have are tried one after the other. -/
def signalVoltage (has12 has18 : Bool) (v : Voltage) : Bool := (has12 && v.v12) || (has18 && v.v18)

/-! ### The modes -/

/-- `mmc_bus_width`, without the test of the bus. -/
def mmc_bus_width (cfg : Config) : ℕ := if cfg.bw8 then 8 else if cfg.bw4 then 4 else 1

/-- `_mmc_init_hs200`. -/
def _mmc_init_hs200 (o : Hs200Run) (width : ℕ) : Step :=
  (switchWidth o.width (width / 4)).then <| (switchTiming o.timing .hs200).then <|
    (sdio_timing o.host .hs200).then <|
  check o.tune

/-- `mmc_init_hs200`. -/
def mmc_init_hs200 (cfg : Config) (v : Voltage) (o : Hs200Run) (width : ℕ) : Step :=
  (check (signalVoltage (cfg.hs200_1_2v && cfg.sv_1_2v) (cfg.hs200_1_8v && cfg.sv_1_8v) v)).then <|
  (_mmc_init_hs200 o width).then <| setFlags fun f => { f with hs200 := true }

/-- `mmc_init_hs400es`. -/
def mmc_init_hs400es (cfg : Config) (o : EsRun) (width : ℕ) : Step :=
  (check (signalVoltage (cfg.hs400_1_2v && cfg.sv_1_2v) (cfg.hs400_1_8v && cfg.sv_1_8v)
    o.volt)).then <|
  (switchWidth o.width (width / 4)).then <| (switchTiming o.hs .hs).then <|
    (sdio_timing o.hostHs .hs).then <|
  (switchWidth o.widthEs (ECSD_BUS_WIDTH_ES + ECSD_BUS_WIDTH_8 + ECSD_BUS_WIDTH_DDR)).then <|
  (switchTiming o.hs400 .hs400).then <| (sdio_timing o.host .hs400es).then <|
  setFlags fun f => { f with hs400es := true }

/-- `mmc_hs200_to_hs400`: whether the card is ready in between makes no difference. -/
def mmc_hs200_to_hs400 (o : To400Run) : Step :=
  (sendTiming o.hs .hs).then <| (sdio_timing o.hostHs .hs).then <|
  (switchWidth o.width (ECSD_BUS_WIDTH_8 + ECSD_BUS_WIDTH_DDR)).then <|
    (switchTiming o.hs400 .hs400).then <|
  (sdio_timing o.host .hs400).then <| (check o.ready).then <|
  setFlags fun f => { f with hs200 := false, hs400 := true }

/-- A step whose failure is not looked at. -/
def anyway (m n : Step) : Step := fun s => n (m s).2

/-- `mmc_init_hs400`: it goes on to HS400 even if HS200 failed. -/
def mmc_init_hs400 (cfg : Config) (v : Voltage) (o : Hs200Run) (o' : To400Run) (width : ℕ) : Step :=
  (check (signalVoltage (cfg.hs400_1_2v && cfg.hs200_1_2v && cfg.sv_1_2v)
    (cfg.hs400_1_8v && cfg.hs200_1_8v && cfg.sv_1_8v) v)).then <|
  anyway ((_mmc_init_hs200 o width).then <| setFlags fun f => { f with hs200 := true })
    (mmc_hs200_to_hs400 o')

/-- `mmc_hs400_to_hs200`. -/
def mmc_hs400_to_hs200 (o : To200Run) : Step :=
  (sendTiming o.hs .hs).then <| anyway (sdio_timing o.hostDdr .ddr50) <| (check o.ready).then <|
  (switchWidth o.width ECSD_BUS_WIDTH_8).then <| (check o.readyWidth).then <|
    (sdio_timing o.hostHs .hs).then <|
  (switchTiming o.hs200 .hs200).then <| (sdio_timing o.host .hs200).then <|
    (check o.readyEnd).then <|
  setFlags fun f => { f with hs200 := true, hs400 := false }

/-- `mmc_retune`. -/
def mmc_retune (o : To200Run) (tune : Bool) (o' : To400Run) : Step := fun s =>
  if s.flags.hs400 then
    ((mmc_hs400_to_hs200 o).then <| (check tune).then <| mmc_hs200_to_hs400 o') s
  else check tune s

/-- `mmc_init_hs`. -/
def mmc_init_hs (sw : Switch) (host : Bool) : Step := fun s =>
  ((switchTiming sw .hs).then <| (sdio_timing host .hs).then <| setFlags fun f =>
    { f with hs := true }) { s with dtr_max_hs := min s.dtr_max_hs DTR_MAX_HS52 }

/-- `mmc_init_ddr`: whether the controller takes the timing is not looked at. -/
def mmc_init_ddr (cfg : Config) (volt : Bool) (sw : Switch) (host : Bool) (width : ℕ) : Step :=
  (check (!(cfg.ddr_1_2v && cfg.sv_1_2v) || volt)).then <|
  (switchWidth sw (width / 4 + ECSD_BUS_WIDTH_DDR)).then <| anyway (sdio_timing host .ddr50) <|
  setFlags fun f => { f with ddr := true }

/-- The card and the controller are fast enough for the modes above HS, on a bus of `width`. -/
def Fast (s : Bus) (width : ℕ) : Prop := DTR_MAX_HS52 < s.dtr_max_hs ∧ width ≤ mmc_bus_width s.cfg

instance (s : Bus) (width : ℕ) : Decidable (Fast s width) := inferInstanceAs (Decidable (_ ∧ _))

/-- A mode is tried. -/
def attempt (m : Mode) (step : Step) (s : Bus) : Bus :=
  let r := step s
  if r.1 then r.2 else { r.2 with failed := r.2.failed ++ [m] }

/-- `mmc_init_bus`: HS400ES. -/
def tryEs (o : Outcomes) (s : Bus) : Bus :=
  if s.cfg.caps.hs400es ∧ Fast s 8 then
    attempt .hs400es (mmc_init_hs400es s.cfg o.es (mmc_bus_width s.cfg)) s
  else s

/-- `mmc_init_bus`: HS400. -/
def try400 (o : Outcomes) (s : Bus) : Bus :=
  if s.flags.hs400es = false ∧ s.cfg.caps.hs400 ∧ Fast s 8 then
    attempt .hs400 (mmc_init_hs400 s.cfg o.volt400 o.pre400 o.to400 (mmc_bus_width s.cfg)) s
  else s

/-- `mmc_init_bus`: HS200. -/
def try200 (o : Outcomes) (s : Bus) : Bus :=
  if (s.flags.hs400 = false ∧ s.flags.hs400es = false) ∧ s.cfg.caps.hs200 ∧ Fast s 4 then
    attempt .hs200 (mmc_init_hs200 s.cfg o.volt200 o.hs200 (mmc_bus_width s.cfg)) s
  else s

/-- `mmc_init_bus`: HS. -/
def tryHs (o : Outcomes) (s : Bus) : Bus :=
  if (s.flags.hs200 = false ∧ s.flags.hs400 = false ∧ s.flags.hs400es = false) ∧ s.cfg.caps.hs then
    attempt .hs (mmc_init_hs o.hs o.hostHs) s
  else s

/-- `mmc_init_bus`: the width of the bus, with DDR if it is supported. -/
def tryWidth (o : Outcomes) (s : Bus) : Bus :=
  if s.flags.hs ∧ 4 ≤ mmc_bus_width s.cfg then
    let s := if s.cfg.caps.ddr then
        attempt .ddr (mmc_init_ddr s.cfg o.voltDdr o.widthDdr o.hostDdr (mmc_bus_width s.cfg)) s
      else s
    if s.flags.ddr then s else (switchWidth o.width (mmc_bus_width s.cfg / 4) s).2
  else s

/-- `mmc_init_bus`: all higher modes have failed. -/
def fallBack (o : Outcomes) (s : Bus) : Bus :=
  if s.flags.hs400es = false ∧ s.flags.hs400 = false ∧ s.flags.hs200 = false ∧
    s.flags.hs = false then
    (sdio_timing o.hostLs .ls s).2
  else s

/-- `mmc_init_bus`. -/
def mmc_init_bus (o : Outcomes) (s : Bus) : Bool × Bus :=
  let s := fallBack o (tryWidth o (tryHs o (try200 o (try400 o (tryEs o { s with failed := [] })))))
  (o.blklen, { s with settled := o.blklen })

/-! ### Histories -/

/-- The power is switched off and on. -/
def powerCycle (s : Bus) : Bus :=
  { s with timing := .ls, hs_timing := .ls, bus_width := 0, settled := false }

/-- `mmc_bus_error`, before it calls `mmc_init_bus`. -/
def slowDown (s : Bus) : Bus :=
  let disable (m : Mode) (caps : Flags) : Config :=
    { s.cfg with caps := caps, disabled := m :: s.cfg.disabled }
  if s.flags.hs400es then { s with
    flags := { s.flags with hs400es := false }, cfg :=
      disable .hs400es { s.cfg.caps with hs400es := false } }
  else if s.flags.hs400 then { s with
    flags := { s.flags with hs400 := false }, cfg :=
      disable .hs400 { s.cfg.caps with hs400 := false } }
  else if s.flags.hs200 then { s with
    flags := { s.flags with hs200 := false }, cfg :=
      disable .hs200 { s.cfg.caps with hs200 := false }
    dtr_max_hs := DTR_MAX_HS52 }
  else if s.flags.ddr then { s with
    flags := { s.flags with ddr := false }, cfg := disable .ddr { s.cfg.caps with ddr := false } }
  else if s.flags.hs then { s with
    flags := { s.flags with hs := false }
    dtr_max_hs := if s.dtr_max_hs = DTR_MAX_HS26 then s.dtr_max_hs
      else max DTR_MAX_HS26 (s.dtr_max_hs - DTR_HS_DEC) }
  else s

/-- What happens to a bus. -/
inductive Op where
  /-- A card is attached: its data are cleared; without `powered`, the power is left on. -/
  | attach (cfg : Config) (dtr_max_hs : ℕ) (powered : Bool) (o : Outcomes)
  /-- A pass of the loop of `_sdio_reset` that comes to `mmc_init_bus`. -/
  | reset (o : Outcomes)
  /-- One that does not. -/
  | resetFails
  | busError (o : Outcomes)
  | retune (o : To200Run) (tune : Bool) (o' : To400Run)
deriving DecidableEq, Repr

/-- The bus before `mmc_init_bus` is called, and how it comes out. -/
def Op.start (s : Bus) : Op → Option (Bus × Outcomes)
  | .attach cfg dtr powered o =>
      let s := { s with cfg := { cfg with disabled := [] }, dtr_max_hs := dtr, flags := {} }
      some (if powered then powerCycle s else s, o)
  | .reset o => some (powerCycle s, o)
  | .busError o => some (slowDown s, o)
  | _ => none

def Op.apply (s : Bus) (op : Op) : Bus :=
  match op.start s with
  | some (s, o) => (mmc_init_bus o s).2
  | none =>
      match op with
      | .retune o tune o' => { (mmc_retune o tune o' s).2 with settled := false }
      | _ => powerCycle s

def run (s : Bus) (ops : List Op) : Bus := ops.foldl Op.apply s

/-! ### What is asked -/

/-- The flags of a mode: DDR is set up on top of HS. -/
def Mode.flags : Mode → Flags
  | .ls => {}
  | .hs => { hs := true }
  | .ddr => { hs := true, ddr := true }
  | .hs200 => { hs200 := true }
  | .hs400 => { hs400 := true }
  | .hs400es => { hs400es := true }

def Mode.timing : Mode → Timing
  | .ls => .ls
  | .hs => .hs
  | .ddr => .ddr50
  | .hs200 => .hs200
  | .hs400 => .hs400
  | .hs400es => .hs400es

def Mode.hs_timing : Mode → HsTiming
  | .ls => .ls
  | .hs => .hs
  | .ddr => .hs
  | .hs200 => .hs200
  | .hs400 => .hs400
  | .hs400es => .hs400

/-- A value of `ECSD_BUS_WIDTH` that goes with a mode. -/
def Mode.Width (m : Mode) (v : ℕ) : Prop :=
  match m with
  | .ddr => ECSD_BUS_WIDTH_DDR < v ∧ v < 2 * ECSD_BUS_WIDTH_DDR
  | .hs400 => v = ECSD_BUS_WIDTH_8 + ECSD_BUS_WIDTH_DDR
  | .hs400es => v = ECSD_BUS_WIDTH_ES + ECSD_BUS_WIDTH_8 + ECSD_BUS_WIDTH_DDR
  | _ => v < ECSD_BUS_WIDTH_DDR

/-- The bus is in a mode: the controller, the card and the flags agree. -/
structure Matches (m : Mode) (s : Bus) : Prop where
  flags : s.flags = m.flags
  timing : s.timing = m.timing
  hs_timing : s.hs_timing = m.hs_timing
  width : m.Width s.bus_width

/-- The bus is in a mode, and no flag is left of one that failed or was disabled. -/
structure Correct (s : Bus) : Prop where
  agrees : ∃ m, Matches m s
  failed : ∀ m ∈ s.failed, s.flags.has m = false
  disabled : ∀ m ∈ s.cfg.disabled, s.flags.has m = false

/-! ### What an initialisation needs -/

def Config.voltEs (cfg : Config) (v : Voltage) : Bool :=
  signalVoltage (cfg.hs400_1_2v && cfg.sv_1_2v) (cfg.hs400_1_8v && cfg.sv_1_8v) v

def Config.volt400 (cfg : Config) (v : Voltage) : Bool :=
  signalVoltage (cfg.hs400_1_2v && cfg.hs200_1_2v && cfg.sv_1_2v)
    (cfg.hs400_1_8v && cfg.hs200_1_8v && cfg.sv_1_8v) v

def Config.volt200 (cfg : Config) (v : Voltage) : Bool :=
  signalVoltage (cfg.hs200_1_2v && cfg.sv_1_2v) (cfg.hs200_1_8v && cfg.sv_1_8v) v

def EsRun.works (o : EsRun) : Bool :=
  o.width.ok && (o.hs.ok && (o.hostHs && (o.widthEs.ok && (o.hs400.ok && o.host))))

def Hs200Run.works (o : Hs200Run) : Bool := o.width.ok && (o.timing.ok && (o.host && o.tune))

def To400Run.works (o : To400Run) : Bool :=
  o.hs && (o.hostHs && (o.width.ok && (o.hs400.ok && (o.host && o.ready))))

/-- HS400ES is tried, and set up. -/
def EsUp (s : Bus) (o : Outcomes) : Prop :=
  (s.cfg.caps.hs400es ∧ Fast s 8) ∧ s.cfg.voltEs o.es.volt ∧ o.es.works

/-- HS400 is tried. -/
def Tries400 (s : Bus) (o : Outcomes) : Prop :=
  (s.cfg.caps.hs400 ∧ Fast s 8) ∧ s.cfg.volt400 o.volt400

/-- HS400 is tried, and set up. -/
def Up400 (s : Bus) (o : Outcomes) : Prop := Tries400 s o ∧ o.to400.works

/-- HS200 is tried, and set up. -/
def Up200 (s : Bus) (o : Outcomes) : Prop :=
  (s.cfg.caps.hs200 ∧ Fast s 4) ∧ s.cfg.volt200 o.volt200 ∧ o.hs200.works

/-- HS is tried, and set up. -/
def UpHs (s : Bus) (o : Outcomes) : Prop := s.cfg.caps.hs ∧ o.hs.ok ∧ o.hostHs

/-- DDR is tried, and the card takes it. -/
def UpDdr (s : Bus) (o : Outcomes) : Prop :=
  s.cfg.caps.ddr ∧ (!(s.cfg.ddr_1_2v && s.cfg.sv_1_2v) || o.voltDdr) ∧ o.widthDdr.ok

/-- The modes above HS are not set up, and no flag of them is left: in particular not that of HS200,
which the setup of HS400 sets on its way. -/
def NoneFast (s : Bus) (o : Outcomes) : Prop :=
  ¬ EsUp s o ∧ ¬ Up400 s o ∧ ¬ Up200 s o ∧ ¬ (Tries400 s o ∧ o.pre400.works)

/-- No setup that fails has had a timing accepted by the card. -/
structure Untouched (s : Bus) (o : Outcomes) : Prop where
  es : s.cfg.caps.hs400es ∧ Fast s 8 → s.cfg.voltEs o.es.volt → o.es.width.ok →
    o.es.hs.accepted = false
  pre400 : Tries400 s o → o.pre400.width.ok → o.pre400.timing.accepted = false
  to400 : Tries400 s o → o.to400.hs = false
  hs200 : s.cfg.caps.hs200 ∧ Fast s 4 → s.cfg.volt200 o.volt200 → o.hs200.width.ok →
    o.hs200.timing.accepted = false
  hs : s.cfg.caps.hs → o.hs.accepted = false

/-- The flags that may be left from before when a mode is set up. -/
def Mode.Leaves : Mode → Flags → Prop
  | .ls, f => f = {}
  | .hs, f => f = { f with ddr := false, hs200 := false, hs400 := false, hs400es := false }
  | .ddr, f => f = { f with hs200 := false, hs400 := false, hs400es := false }
  | .hs200, f => f = { f with hs := false, ddr := false, hs400 := false, hs400es := false }
  | .hs400, f => f = { f with hs := false, ddr := false, hs400es := false }
  | .hs400es, f => f = { f with hs := false, ddr := false, hs200 := false, hs400 := false }

/-- The initialisation ends in a mode that was set up completely. -/
def Reaches (s : Bus) (o : Outcomes) : Mode → Prop
  | .hs400es => EsUp s o
  | .hs400 => ¬ EsUp s o ∧ Up400 s o
  | .hs200 => ¬ EsUp s o ∧ ¬ Up400 s o ∧ Up200 s o
  | .ddr => NoneFast s o ∧ UpHs s o ∧ 4 ≤ mmc_bus_width s.cfg ∧ UpDdr s o ∧ o.hostDdr
  | .hs => NoneFast s o ∧ UpHs s o ∧
      if 4 ≤ mmc_bus_width s.cfg then ¬ UpDdr s o ∧ o.width.ok else s.bus_width < ECSD_BUS_WIDTH_DDR
  | .ls =>
      NoneFast s o ∧ ¬ UpHs s o ∧ Untouched s o ∧ o.hostLs ∧ s.hs_timing = .ls ∧
      s.bus_width < ECSD_BUS_WIDTH_DDR

/-- **What an initialisation needs**: it ends in a mode that was set up completely, and no flag was
left from before but one that this setup takes over. -/
def Sound (s : Bus) (o : Outcomes) : Prop := ∃ m : Mode, Reaches s o m ∧ m.Leaves s.flags

/-! ### What a setup changes -/

/-- Only the timings and the width are changed. -/
structure Registers (s s' : Bus) : Prop where
  cfg : s'.cfg = s.cfg
  dtr : s'.dtr_max_hs = s.dtr_max_hs
  flags : s'.flags = s.flags
  failed : s'.failed = s.failed

theorem Registers.refl (s : Bus) : Registers s s := ⟨rfl, rfl, rfl, rfl⟩

theorem Registers.trans {s s' s'' : Bus} (h : Registers s s') (h' : Registers s' s'') :
    Registers s s'' :=
  ⟨h'.cfg.trans h.cfg, h'.dtr.trans h.dtr, h'.flags.trans h.flags, h'.failed.trans h.failed⟩

/-- A step whose outcome is `b`, and that changes the registers only. -/
structure Touches (m : Step) (b : Bool) : Prop where
  status : ∀ s, (m s).1 = b
  registers : ∀ s, Registers s (m s).2

theorem check_touches (ok : Bool) : Touches (check ok) ok :=
  ⟨fun _ => rfl, fun s => Registers.refl s⟩

theorem sendTiming_touches (accepted : Bool) (v : HsTiming) :
    Touches (sendTiming accepted v) accepted := by
  refine ⟨fun _ => rfl, fun s => ?_⟩
  dsimp only [sendTiming]
  split <;> exact ⟨rfl, rfl, rfl, rfl⟩

theorem switchTiming_touches (sw : Switch) (v : HsTiming) : Touches (switchTiming sw v) sw.ok := by
  refine ⟨fun _ => rfl, fun s => ?_⟩
  dsimp only [switchTiming]
  split <;> exact ⟨rfl, rfl, rfl, rfl⟩

theorem switchWidth_touches (sw : Switch) (v : ℕ) : Touches (switchWidth sw v) sw.ok := by
  refine ⟨fun _ => rfl, fun s => ?_⟩
  dsimp only [switchWidth]
  split <;> exact ⟨rfl, rfl, rfl, rfl⟩

theorem sdio_timing_touches (ok : Bool) (t : Timing) : Touches (sdio_timing ok t) ok := by
  refine ⟨fun _ => rfl, fun s => ?_⟩
  dsimp only [sdio_timing]
  split <;> exact ⟨rfl, rfl, rfl, rfl⟩

theorem Touches.then {m n : Step} {b c : Bool} (hm : Touches m b) (hn : Touches n c) :
    Touches (m.then n) (b && c) := by
  refine ⟨fun s => ?_, fun s => ?_⟩
  · unfold Step.then
    rw [hm.status s]
    cases b
    · exact hm.status s
    · exact hn.status _
  · unfold Step.then
    split
    · exact (hm.registers s).trans (hn.registers _)
    · exact hm.registers s

/-- A setup whose outcome is `b`: a failure changes the registers only, and success the flags as
well. -/
structure SetsUp (m : Step) (b : Bool) (f : Flags → Flags) : Prop where
  status : ∀ s, (m s).1 = b
  registers : ∀ s, Registers { s with flags := if b then f s.flags else s.flags } (m s).2

theorem setFlags_setsUp (f : Flags → Flags) : SetsUp (setFlags f) true f :=
  ⟨fun _ => rfl, fun _ => ⟨rfl, rfl, rfl, rfl⟩⟩

theorem Touches.setsUp {m n : Step} {b c : Bool} {f : Flags → Flags} (hm : Touches m b)
    (hn : SetsUp n c f) :
    SetsUp (m.then n) (b && c) f := by
  refine ⟨fun s => ?_, fun s => ?_⟩
  · unfold Step.then
    rw [hm.status s]
    cases b
    · exact hm.status s
    · exact hn.status _
  · have hreg := hm.registers s
    unfold Step.then
    rw [hm.status s]
    cases b
    · exact ⟨hreg.cfg, hreg.dtr, hreg.flags, hreg.failed⟩
    · have hreg' := hn.registers (m s).2
      refine ⟨hreg'.cfg.trans hreg.cfg, hreg'.dtr.trans hreg.dtr, ?_,
        hreg'.failed.trans hreg.failed⟩
      rw [if_pos rfl, hreg'.flags, hreg.flags]
      rfl

theorem Touches.anyway {m n : Step} {b c : Bool} {f : Flags → Flags} (hm : Touches m b)
    (hn : SetsUp n c f) :
    SetsUp (anyway m n) c f := by
  refine ⟨fun s => hn.status _, fun s => ?_⟩
  have hreg := hm.registers s
  have hreg' := hn.registers (m s).2
  refine ⟨hreg'.cfg.trans hreg.cfg, hreg'.dtr.trans hreg.dtr, ?_, hreg'.failed.trans hreg.failed⟩
  change (n (m s).2).2.flags = _
  rw [hreg'.flags, hreg.flags]

theorem init_hs200_touches (o : Hs200Run) (width : ℕ) : Touches (_mmc_init_hs200 o width) o.works :=
  (switchWidth_touches _ _).then <| (switchTiming_touches _ _).then <|
    (sdio_timing_touches _ _).then <| check_touches _

theorem init_hs200_setsUp (cfg : Config) (v : Voltage) (o : Hs200Run) (width : ℕ) :
    SetsUp (mmc_init_hs200 cfg v o width) (cfg.volt200 v && o.works) fun f =>
    { f with hs200 := true } := by
  have h := (check_touches (cfg.volt200 v)).setsUp
    ((init_hs200_touches o width).setsUp (setFlags_setsUp fun f => { f with hs200 := true }))
  rw [Bool.and_true] at h
  exact h

theorem init_hs400es_setsUp (cfg : Config) (o : EsRun) (width : ℕ) :
    SetsUp (mmc_init_hs400es cfg o width) (cfg.voltEs o.volt && o.works) fun f =>
    { f with hs400es := true } := by
  have h := (check_touches (cfg.voltEs o.volt)).setsUp <|
    (switchWidth_touches o.width (width / 4)).setsUp <|
    (switchTiming_touches o.hs .hs).setsUp <| (sdio_timing_touches o.hostHs .hs).setsUp <|
    (switchWidth_touches o.widthEs
      (ECSD_BUS_WIDTH_ES + ECSD_BUS_WIDTH_8 + ECSD_BUS_WIDTH_DDR)).setsUp <|
    (switchTiming_touches o.hs400 .hs400).setsUp <| (sdio_timing_touches o.host .hs400es).setsUp <|
    setFlags_setsUp fun f => { f with hs400es := true }
  rw [Bool.and_true] at h
  exact h

theorem to_hs400_setsUp (o : To400Run) :
    SetsUp (mmc_hs200_to_hs400 o) o.works fun f => { f with hs200 := false, hs400 := true } := by
  have h := (sendTiming_touches o.hs .hs).setsUp <| (sdio_timing_touches o.hostHs .hs).setsUp <|
    (switchWidth_touches o.width (ECSD_BUS_WIDTH_8 + ECSD_BUS_WIDTH_DDR)).setsUp <|
    (switchTiming_touches o.hs400 .hs400).setsUp <| (sdio_timing_touches o.host .hs400).setsUp <|
    (check_touches o.ready).setsUp <| setFlags_setsUp fun f =>
    { f with hs200 := false, hs400 := true }
  rw [Bool.and_true] at h
  exact h

/-! ### Where a setup that works leaves the registers -/

theorem Switch.accepted_of_ok {sw : Switch} (h : sw.ok = true) : sw.accepted = true :=
  ((Bool.and_eq_true _ _).mp h).1

theorem then_ok {m n : Step} {s : Bus} (h : (m s).1 = true) : (m.then n) s = n (m s).2 := by
  rw [Step.then, if_pos h]

theorem switchWidth_ok {sw : Switch} (h : sw.ok = true) (v : ℕ) (s : Bus) :
    switchWidth sw v s = (true, { s with bus_width := v }) := by
  rw [switchWidth, h, if_pos (Switch.accepted_of_ok h)]

theorem switchTiming_ok {sw : Switch} (h : sw.ok = true) (v : HsTiming) (s : Bus) :
    switchTiming sw v s = (true, { s with hs_timing := v }) := by
  rw [switchTiming, h, if_pos (Switch.accepted_of_ok h)]

theorem init_hs400es_up {cfg : Config} {o : EsRun} (hv : cfg.voltEs o.volt = true)
    (h : o.works = true) (width : ℕ) (s : Bus) :
    mmc_init_hs400es cfg o width s = (true, { s with
      timing := .hs400es, hs_timing := .hs400, bus_width :=
        ECSD_BUS_WIDTH_ES + ECSD_BUS_WIDTH_8 + ECSD_BUS_WIDTH_DDR
      flags := { s.flags with hs400es := true } }) := by
  simp only [EsRun.works, Bool.and_eq_true] at h
  obtain ⟨hwidth, hhs, hhost, hes, h400, hend⟩ := h
  change ((check (cfg.voltEs o.volt)).then _) s = _
  simp only [hv, Step.then, check, switchWidth_ok hwidth, switchTiming_ok hhs, switchWidth_ok hes,
    switchTiming_ok h400, sdio_timing, hhost, hend, setFlags, if_true]

theorem init_hs200_up {o : Hs200Run} (h : o.works = true) (width : ℕ) (s : Bus) :
    _mmc_init_hs200 o width s =
      (true, { s with timing := .hs200, hs_timing := .hs200, bus_width := width / 4 }) := by
  simp only [Hs200Run.works, Bool.and_eq_true] at h
  obtain ⟨hwidth, htiming, hhost, htune⟩ := h
  simp only [_mmc_init_hs200, Step.then, check, switchWidth_ok hwidth, switchTiming_ok htiming,
    sdio_timing, hhost, htune, if_true]

theorem to_hs400_up {o : To400Run} (h : o.works = true) (s : Bus) :
    mmc_hs200_to_hs400 o s = (true, { s with
      timing := .hs400, hs_timing := .hs400, bus_width := ECSD_BUS_WIDTH_8 + ECSD_BUS_WIDTH_DDR
      flags := { s.flags with hs200 := false, hs400 := true } }) := by
  simp only [To400Run.works, Bool.and_eq_true] at h
  obtain ⟨hhs, hhost, hwidth, h400, hend, hready⟩ := h
  simp only [mmc_hs200_to_hs400, Step.then, sendTiming, hhs, sdio_timing, hhost,
    switchWidth_ok hwidth, switchTiming_ok h400, hend, check, hready, setFlags, if_true]

/-! ### A mode is tried -/

theorem attempt_up {m : Mode} {step : Step} {s : Bus} (h : (step s).1 = true) :
    attempt m step s = (step s).2 := by
  rw [attempt, if_pos h]

/-- What a mode that is not set up leaves behind: the registers, and the note that it failed. -/
structure GivenUp (m : Mode) (s s' : Bus) : Prop where
  cfg : s'.cfg = s.cfg
  dtr : s'.dtr_max_hs = s.dtr_max_hs
  flags : s'.flags = s.flags
  failed : ∀ k ∈ s'.failed, k ∈ s.failed ∨ k = m

theorem GivenUp.refl (m : Mode) (s : Bus) : GivenUp m s s := ⟨rfl, rfl, rfl, fun _ => Or.inl⟩

theorem attempt_givenUp {m : Mode} {step : Step} {f : Flags → Flags} (h : SetsUp step false f)
    (s : Bus) :
    GivenUp m s (attempt m step s) := by
  have hreg := h.registers s
  rw [attempt, h.status s]
  refine ⟨hreg.cfg, hreg.dtr, hreg.flags, fun k hk => ?_⟩
  rcases List.mem_append.mp hk with hk | hk
  · rw [hreg.failed] at hk
    exact Or.inl hk
  · exact Or.inr (List.mem_singleton.mp hk)

/-- What a mode that is set up leaves behind, with the flags `f`. -/
structure IsUp (m : Mode) (f : Flags) (s s' : Bus) : Prop where
  cfg : s'.cfg = s.cfg
  flags : s'.flags = f
  failed : s'.failed = s.failed
  timing : s'.timing = m.timing
  hs_timing : s'.hs_timing = m.hs_timing
  width : m.Width s'.bus_width

theorem width_lt (cfg : Config) : mmc_bus_width cfg / 4 < ECSD_BUS_WIDTH_DDR := by
  unfold mmc_bus_width
  split_ifs <;> decide

theorem tryEs_up {s : Bus} {o : Outcomes} (h : EsUp s o) :
    IsUp .hs400es { s.flags with hs400es := true } s (tryEs o s) := by
  obtain ⟨htried, hv, hworks⟩ := h
  have hup := init_hs400es_up hv hworks (mmc_bus_width s.cfg) s
  rw [tryEs, if_pos htried, attempt_up (congrArg Prod.fst hup), hup]
  exact ⟨rfl, rfl, rfl, rfl, rfl, rfl⟩

theorem tryEs_givenUp {s : Bus} {o : Outcomes} (h : ¬ EsUp s o) :
    GivenUp .hs400es s (tryEs o s) := by
  rw [tryEs]
  split
  · rename_i htried
    have hset := init_hs400es_setsUp s.cfg o.es (mmc_bus_width s.cfg)
    have hfalse : (s.cfg.voltEs o.es.volt && o.es.works) = false := by
      by_contra hne
      exact h ⟨htried, (Bool.and_eq_true _ _).mp ((Bool.not_eq_false _).mp hne)⟩
    rw [hfalse] at hset
    exact attempt_givenUp hset s
  · exact GivenUp.refl _ s

theorem try200_up {s : Bus} {o : Outcomes}
    (hclear : s.flags.hs400 = false ∧ s.flags.hs400es = false) (h : Up200 s o) :
    IsUp .hs200 { s.flags with hs200 := true } s (try200 o s) := by
  obtain ⟨htried, hv, hworks⟩ := h
  have hup : mmc_init_hs200 s.cfg o.volt200 o.hs200 (mmc_bus_width s.cfg) s = (true, { s with
      timing := .hs200, hs_timing := .hs200, bus_width := mmc_bus_width s.cfg / 4
      flags := { s.flags with hs200 := true } }) := by
    change ((check (s.cfg.volt200 o.volt200)).then _) s = _
    simp only [hv, Step.then, check, init_hs200_up hworks, setFlags, if_true]
  rw [try200, if_pos ⟨hclear, htried⟩, attempt_up (congrArg Prod.fst hup), hup]
  exact ⟨rfl, rfl, rfl, rfl, rfl, width_lt s.cfg⟩

theorem try200_givenUp {s : Bus} {o : Outcomes} (h : ¬ Up200 s o) :
    GivenUp .hs200 s (try200 o s) := by
  rw [try200]
  split
  · rename_i htried
    have hset := init_hs200_setsUp s.cfg o.volt200 o.hs200 (mmc_bus_width s.cfg)
    have hfalse : (s.cfg.volt200 o.volt200 && o.hs200.works) = false := by
      by_contra hne
      exact h ⟨htried.2, (Bool.and_eq_true _ _).mp ((Bool.not_eq_false _).mp hne)⟩
    rw [hfalse] at hset
    exact attempt_givenUp hset s
  · exact GivenUp.refl _ s

/-- The way to HS400 over HS200. -/
def by200 (o : Hs200Run) (width : ℕ) : Step :=
  (_mmc_init_hs200 o width).then <| setFlags fun f => { f with hs200 := true }

theorem by200_setsUp (o : Hs200Run) (width : ℕ) :
    SetsUp (by200 o width) o.works fun f => { f with hs200 := true } := by
  have h := (init_hs200_touches o width).setsUp (setFlags_setsUp fun f => { f with hs200 := true })
  rw [Bool.and_true] at h
  exact h

theorem init_hs400_eq (cfg : Config) (v : Voltage) (o : Hs200Run) (o' : To400Run) (width : ℕ) :
    mmc_init_hs400 cfg v o o' width = (check (cfg.volt400 v)).then
      (anyway (by200 o width) (mmc_hs200_to_hs400 o')) := rfl

theorem try400_up {s : Bus} {o : Outcomes} (hclear : s.flags.hs400es = false) (h : Up400 s o) :
    IsUp .hs400 { s.flags with hs200 := false, hs400 := true } s (try400 o s) := by
  obtain ⟨⟨htried, hv⟩, hworks⟩ := h
  have hreg := (by200_setsUp o.pre400 (mmc_bus_width s.cfg)).registers s
  have hup : mmc_init_hs400 s.cfg o.volt400 o.pre400 o.to400 (mmc_bus_width s.cfg) s =
      mmc_hs200_to_hs400 o.to400 (by200 o.pre400 (mmc_bus_width s.cfg) s).2 := by
    rw [init_hs400_eq, then_ok hv]
    rfl
  rw [to_hs400_up hworks] at hup
  rw [try400, if_pos ⟨hclear, htried⟩, attempt_up (congrArg Prod.fst hup), hup]
  refine ⟨hreg.cfg, ?_, hreg.failed, rfl, rfl, rfl⟩
  dsimp only
  rw [hreg.flags]
  split <;> rfl

/-- HS400 is not set up: the flag of HS200 may have been set on the way. -/
theorem try400_givenUp {s : Bus} {o : Outcomes} (h : ¬ Up400 s o) :
    ∃ x, GivenUp .hs400 { s with flags := { s.flags with hs200 := x } } (try400 o s) ∧
      (x = s.flags.hs200 ∨ x = true ∧ Tries400 s o ∧ o.pre400.works = true) := by
  rw [try400]
  split
  · rename_i htried
    rw [init_hs400_eq]
    by_cases hv : s.cfg.volt400 o.volt400 = true
    · have hno : o.to400.works = false := by
        by_contra hne
        exact h ⟨⟨htried.2, hv⟩, (Bool.not_eq_false _).mp hne⟩
      have hto := to_hs400_setsUp o.to400
      rw [hno] at hto
      have h₁ := (by200_setsUp o.pre400 (mmc_bus_width s.cfg)).registers s
      have h₂ := hto.registers (by200 o.pre400 (mmc_bus_width s.cfg) s).2
      have hst := hto.status (by200 o.pre400 (mmc_bus_width s.cfg) s).2
      have hrun : ((check (s.cfg.volt400 o.volt400)).then
          (anyway (by200 o.pre400 (mmc_bus_width s.cfg)) (mmc_hs200_to_hs400 o.to400))) s =
          mmc_hs200_to_hs400 o.to400 (by200 o.pre400 (mmc_bus_width s.cfg) s).2 := then_ok hv
      have hflags : (mmc_hs200_to_hs400 o.to400
          (by200 o.pre400 (mmc_bus_width s.cfg) s).2).2.flags =
          { s.flags with hs200 := if o.pre400.works then true else s.flags.hs200 } := by
        rw [h₂.flags, if_neg (by decide), h₁.flags]
        split <;> rfl
      refine ⟨if o.pre400.works then true else s.flags.hs200, ?_, ?_⟩
      · rw [attempt, hrun, hst]
        refine ⟨h₂.cfg.trans h₁.cfg, h₂.dtr.trans h₁.dtr, hflags, fun k hk => ?_⟩
        rcases List.mem_append.mp hk with hk | hk
        · rw [h₂.failed, h₁.failed] at hk
          exact Or.inl hk
        · exact Or.inr (List.mem_singleton.mp hk)
      · split
        · rename_i hpre
          exact Or.inr ⟨rfl, ⟨htried.2, hv⟩, hpre⟩
        · exact Or.inl rfl
    · refine ⟨s.flags.hs200, ?_, Or.inl rfl⟩
      have hset : SetsUp ((check (s.cfg.volt400 o.volt400)).then
          (anyway (by200 o.pre400 (mmc_bus_width s.cfg)) (mmc_hs200_to_hs400 o.to400))) false
            id := by
        rw [Bool.eq_false_iff.mpr hv]
        exact ⟨fun _ => rfl, fun s => ⟨rfl, rfl, rfl, rfl⟩⟩
      exact attempt_givenUp hset s
  · exact ⟨s.flags.hs200, GivenUp.refl _ s, Or.inl rfl⟩

/-! ### HS and the width of the bus -/

theorem init_hs_up {sw : Switch} (h : sw.ok = true) (s : Bus) :
    mmc_init_hs sw true s = (true, { s with
      dtr_max_hs := min s.dtr_max_hs DTR_MAX_HS52, timing := .hs, hs_timing := .hs, flags :=
        { s.flags with hs := true } }) := by
  simp only [mmc_init_hs, Step.then, switchTiming_ok h, sdio_timing, setFlags, if_true]

/-- HS is set up; the width is what it was. -/
theorem tryHs_up {s : Bus} {o : Outcomes}
    (hclear : s.flags.hs200 = false ∧ s.flags.hs400 = false ∧ s.flags.hs400es = false)
    (h : UpHs s o) : tryHs o s = { s with
      dtr_max_hs := min s.dtr_max_hs DTR_MAX_HS52, timing := .hs, hs_timing := .hs, flags :=
        { s.flags with hs := true } } := by
  obtain ⟨hcap, hok, hhost⟩ := h
  have hup := init_hs_up hok s
  rw [tryHs, if_pos ⟨hclear, hcap⟩, hhost, attempt_up (congrArg Prod.fst hup), hup]

/-- What is left behind when HS is not set up. -/
theorem tryHs_givenUp {s : Bus} {o : Outcomes} (h : ¬ UpHs s o) :
    (tryHs o s).cfg = s.cfg ∧ (tryHs o s).flags = s.flags ∧ ∀ k ∈ (tryHs o s).failed, k ∈ s.failed ∨
    k = .hs := by
  rw [tryHs]
  split
  · rename_i htried
    have hset := (switchTiming_touches o.hs .hs).setsUp <|
      (sdio_timing_touches o.hostHs .hs).setsUp <| setFlags_setsUp fun f => { f with hs := true }
    have hfalse : (o.hs.ok && (o.hostHs && true)) = false := by
      by_contra hne
      have hboth := (Bool.not_eq_false _).mp hne
      rw [Bool.and_true, Bool.and_eq_true] at hboth
      exact h ⟨htried.2, hboth⟩
    rw [hfalse] at hset
    have hgiven := attempt_givenUp (m := .hs) hset
      { s with dtr_max_hs := min s.dtr_max_hs DTR_MAX_HS52 }
    exact ⟨hgiven.cfg, hgiven.flags, hgiven.failed⟩
  · exact ⟨rfl, rfl, fun _ => Or.inl⟩

theorem init_ddr_up {cfg : Config} {volt : Bool} {sw : Switch}
    (hv : (!(cfg.ddr_1_2v && cfg.sv_1_2v) || volt) = true)
    (hok : sw.ok = true) (width : ℕ) (s : Bus) :
    mmc_init_ddr cfg volt sw true width s = (true, { s with
      bus_width := width / 4 + ECSD_BUS_WIDTH_DDR, timing := .ddr50, flags :=
        { s.flags with ddr := true } }) := by
  simp only [mmc_init_ddr, Step.then, check, hv, switchWidth_ok hok, anyway, sdio_timing, setFlags,
    if_true]

/-- Without DDR the timings are what they were. -/
theorem init_ddr_fails {cfg : Config} {volt : Bool} {sw : Switch} (host : Bool) (width : ℕ)
    (s : Bus) (h : ((!(cfg.ddr_1_2v && cfg.sv_1_2v) || volt) && sw.ok) = false) :
    ∃ v, mmc_init_ddr cfg volt sw host width s = (false, { s with bus_width := v }) := by
  rw [mmc_init_ddr, Step.then, check]
  cases hv : (!(cfg.ddr_1_2v && cfg.sv_1_2v) || volt) with
  | false => exact ⟨s.bus_width, rfl⟩
  | true =>
      rw [hv, Bool.true_and] at h
      refine ⟨if sw.accepted then width / 4 + ECSD_BUS_WIDTH_DDR else s.bus_width, ?_⟩
      simp only [if_true, Step.then, switchWidth, h, Bool.false_eq_true, if_false]
      split <;> rfl

theorem four_le_cases {cfg : Config} (h : 4 ≤ mmc_bus_width cfg) :
    mmc_bus_width cfg = 4 ∨ mmc_bus_width cfg = 8 := by
  unfold mmc_bus_width at *
  split_ifs at * <;> omega

/-- DDR is set up on top of HS. -/
theorem tryWidth_ddr {s : Bus} {o : Outcomes} (hhs : s.flags.hs = true)
    (hw : 4 ≤ mmc_bus_width s.cfg) (h : UpDdr s o)
    (hhost : o.hostDdr = true) : tryWidth o s = { s with
      bus_width := mmc_bus_width s.cfg / 4 + ECSD_BUS_WIDTH_DDR, timing := .ddr50, flags :=
        { s.flags with ddr := true } } := by
  obtain ⟨hcap, hv, hok⟩ := h
  have hup := init_ddr_up hv hok (mmc_bus_width s.cfg) s
  rw [tryWidth, if_pos ⟨hhs, hw⟩, if_pos hcap, hhost, attempt_up (congrArg Prod.fst hup), hup]
  rfl

/-- Without DDR the width is set. -/
theorem tryWidth_hs {s : Bus} {o : Outcomes} (hhs : s.flags.hs = true) (hddr : s.flags.ddr = false)
    (hw : 4 ≤ mmc_bus_width s.cfg) (h : ¬ UpDdr s o) (hok : o.width.ok = true) :
    ∃ failed, (∀ k ∈ failed, k ∈ s.failed ∨ k = .ddr) ∧
      tryWidth o s = { s with bus_width := mmc_bus_width s.cfg / 4, failed := failed } := by
  rw [tryWidth, if_pos ⟨hhs, hw⟩]
  by_cases hcap : s.cfg.caps.ddr = true
  · have hno : ((!(s.cfg.ddr_1_2v && s.cfg.sv_1_2v) || o.voltDdr) && o.widthDdr.ok) = false := by
      by_contra hne
      exact h ⟨hcap, (Bool.and_eq_true _ _).mp ((Bool.not_eq_false _).mp hne)⟩
    obtain ⟨v, hv⟩ := init_ddr_fails o.hostDdr (mmc_bus_width s.cfg) s hno
    refine ⟨s.failed ++ [.ddr], fun k hk => ?_, ?_⟩
    · rcases List.mem_append.mp hk with hk | hk
      · exact Or.inl hk
      · exact Or.inr (List.mem_singleton.mp hk)
    · simp only [hcap, if_true, attempt, hv, Bool.false_eq_true, if_false, hddr, switchWidth_ok hok]
  · refine ⟨s.failed, fun _ => Or.inl, ?_⟩
    rw [if_neg hcap]
    dsimp only
    rw [if_neg (by rw [hddr]; decide), switchWidth_ok hok]

theorem tryWidth_narrow {s : Bus} {o : Outcomes}
    (h : ¬ (s.flags.hs = true ∧ 4 ≤ mmc_bus_width s.cfg)) : tryWidth o s = s :=
  if_neg h

/-! ### Modes that are not tried -/

theorem try400_skip {s : Bus} {o : Outcomes} (h : s.flags.hs400es = true) : try400 o s = s := by
  refine if_neg fun htried => ?_
  rw [h] at htried
  exact absurd htried.1 (by decide)

theorem try200_skip {s : Bus} {o : Outcomes} (h : s.flags.hs400 = true ∨ s.flags.hs400es = true) :
    try200 o s = s := by
  refine if_neg fun htried => ?_
  rcases h with h | h
  · exact absurd (h.symm.trans htried.1.1) (by decide)
  · exact absurd (h.symm.trans htried.1.2) (by decide)

/-- Above HS, nothing follows. -/
theorem rest_skip {s : Bus} {o : Outcomes} (hhs : s.flags.hs = false)
    (h : s.flags.hs200 = true ∨ s.flags.hs400 = true ∨ s.flags.hs400es = true) :
      fallBack o (tryWidth o (tryHs o s)) = s := by
  have htry : tryHs o s = s := by
    refine if_neg fun htried => ?_
    rcases h with h | h | h
    · exact absurd (h.symm.trans htried.1.1) (by decide)
    · exact absurd (h.symm.trans htried.1.2.1) (by decide)
    · exact absurd (h.symm.trans htried.1.2.2) (by decide)
  have hwidth : tryWidth o s = s :=
    tryWidth_narrow fun hboth => absurd (hhs.symm.trans hboth.1) (by decide)
  rw [htry, hwidth]
  refine if_neg fun hnone => ?_
  rcases h with h | h | h
  · exact absurd (h.symm.trans hnone.2.2.1) (by decide)
  · exact absurd (h.symm.trans hnone.2.1) (by decide)
  · exact absurd (h.symm.trans hnone.1) (by decide)

theorem fallBack_skip {s : Bus} {o : Outcomes} (h : s.flags.hs = true) : fallBack o s = s :=
  if_neg fun hnone => absurd (h.symm.trans hnone.2.2.2) (by decide)

/-! ### The conditions along the way -/

section Congr

variable {s s' : Bus} {o : Outcomes} (hc : s'.cfg = s.cfg) (hd : s'.dtr_max_hs = s.dtr_max_hs)

include hc hd

theorem fast_congr (width : ℕ) : Fast s' width ↔ Fast s width := by
  rw [Fast, Fast, hc, hd]

theorem tries400_congr : Tries400 s' o ↔ Tries400 s o := by
  rw [Tries400, Tries400, fast_congr hc hd, hc]

theorem up400_congr : Up400 s' o ↔ Up400 s o := by
  rw [Up400, Up400, tries400_congr hc hd]

theorem up200_congr : Up200 s' o ↔ Up200 s o := by
  rw [Up200, Up200, fast_congr hc hd, hc]

end Congr

theorem upHs_congr {s s' : Bus} {o : Outcomes} (hc : s'.cfg = s.cfg) : UpHs s' o ↔ UpHs s o := by
  rw [UpHs, UpHs, hc]

theorem upDdr_congr {s s' : Bus} {o : Outcomes} (hc : s'.cfg = s.cfg) : UpDdr s' o ↔ UpDdr s o := by
  rw [UpDdr, UpDdr, hc]

/-! ### The card is left alone -/

/-- The timing of the card is what it was, and its width stays one without DDR. -/
structure Calm (s s' : Bus) : Prop where
  hs_timing : s'.hs_timing = s.hs_timing
  width : s.bus_width < ECSD_BUS_WIDTH_DDR → s'.bus_width < ECSD_BUS_WIDTH_DDR

theorem Calm.refl (s : Bus) : Calm s s := ⟨rfl, id⟩

theorem Calm.trans {s s' s'' : Bus} (h : Calm s s') (h' : Calm s' s'') : Calm s s'' :=
  ⟨h'.hs_timing.trans h.hs_timing, fun hw => h'.width (h.width hw)⟩

theorem switchWidth_calm (sw : Switch) {v : ℕ} (hv : v < ECSD_BUS_WIDTH_DDR) (s : Bus) :
    Calm s (switchWidth sw v s).2 := by
  dsimp only [switchWidth]
  split
  · exact ⟨rfl, fun _ => hv⟩
  · exact Calm.refl s

/-- A switch that the card does not accept ends the setup. -/
theorem refused_calm {sw : Switch} (h : sw.accepted = false) (v : HsTiming) (n : Step) (s : Bus) :
    Calm s (((switchTiming sw v).then n) s).2 := by
  have hok : sw.ok = false := by rw [Switch.ok, h, Bool.false_and]
  simp only [Step.then, switchTiming, hok, h, Bool.false_eq_true, if_false]
  exact Calm.refl s

theorem then_calm {m n : Step} {s : Bus} (hm : Calm s (m s).2)
    (hn : (m s).1 = true → Calm (m s).2 (n (m s).2).2) :
    Calm s ((m.then n) s).2 := by
  unfold Step.then
  split
  · rename_i hok
    exact hm.trans (hn hok)
  · exact hm

theorem attempt_calm {m : Mode} {step : Step} {s : Bus} (h : Calm s (step s).2) :
    Calm s (attempt m step s) := by
  rw [attempt]
  split
  · exact h
  · exact ⟨h.hs_timing, h.width⟩

theorem init_hs200_calm {o : Hs200Run} (cfg : Config)
    (h : o.width.ok = true → o.timing.accepted = false) (s : Bus) :
    Calm s (_mmc_init_hs200 o (mmc_bus_width cfg) s).2 :=
  then_calm (switchWidth_calm o.width (width_lt cfg) s) fun hok => refused_calm (h hok) _ _ _

theorem tryEs_calm {s : Bus} {o : Outcomes} (h : Untouched s o) : Calm s (tryEs o s) := by
  rw [tryEs]
  split
  · rename_i htried
    refine attempt_calm (then_calm (Calm.refl s) fun hv => ?_)
    exact then_calm (switchWidth_calm o.es.width (width_lt s.cfg) s) fun hok =>
      refused_calm (h.es htried hv hok) _ _ _
  · exact Calm.refl s

theorem by200_calm {o : Hs200Run} (cfg : Config) (h : o.width.ok = true → o.timing.accepted = false)
    (s : Bus) :
    Calm s (by200 o (mmc_bus_width cfg) s).2 :=
  then_calm (init_hs200_calm cfg h s) fun _ => ⟨rfl, id⟩

theorem try400_calm {s : Bus} {o : Outcomes} (h : Untouched s o) : Calm s (try400 o s) := by
  rw [try400]
  split
  · rename_i htried
    rw [init_hs400_eq]
    refine attempt_calm (then_calm (Calm.refl s) fun hv => ?_)
    have htries : Tries400 s o := ⟨htried.2, hv⟩
    refine (by200_calm s.cfg (h.pre400 htries) s).trans ?_
    change Calm _ (mmc_hs200_to_hs400 o.to400 (by200 o.pre400 (mmc_bus_width s.cfg) s).2).2
    simp only [mmc_hs200_to_hs400, Step.then, sendTiming, h.to400 htries, Bool.false_eq_true,
      if_false]
    exact Calm.refl _
  · exact Calm.refl s

theorem try200_calm {s : Bus} {o : Outcomes} (h : Untouched s o) : Calm s (try200 o s) := by
  rw [try200]
  split
  · rename_i htried
    refine attempt_calm (then_calm (Calm.refl s) fun hv => ?_)
    exact then_calm (init_hs200_calm s.cfg (h.hs200 htried.2 hv) s) fun _ => ⟨rfl, id⟩
  · exact Calm.refl s

theorem tryHs_calm {s : Bus} {o : Outcomes} (h : Untouched s o) : Calm s (tryHs o s) := by
  rw [tryHs]
  split
  · rename_i htried
    refine attempt_calm ?_
    have hcalm := refused_calm (h.hs htried.2) .hs
      ((sdio_timing o.hostHs .hs).then (setFlags fun f => { f with hs := true }))
      { s with dtr_max_hs := min s.dtr_max_hs DTR_MAX_HS52 }
    exact ⟨hcalm.hs_timing, hcalm.width⟩
  · exact Calm.refl s

theorem Untouched.congr {s s' : Bus} {o : Outcomes} (h : Untouched s o) (hc : s'.cfg = s.cfg)
    (hd : s'.dtr_max_hs = s.dtr_max_hs) : Untouched s' o := by
  refine ⟨?_, ?_, ?_, ?_, ?_⟩
  · rw [fast_congr hc hd, hc]
    exact h.es
  · rw [tries400_congr hc hd]
    exact h.pre400
  · rw [tries400_congr hc hd]
    exact h.to400
  · rw [fast_congr hc hd, hc]
    exact h.hs200
  · rw [hc]
    exact h.hs

/-! ### One initialisation -/

/-- All modes, from the fastest to the slowest. -/
def tryAll (o : Outcomes) (s : Bus) : Bus :=
  fallBack o (tryWidth o (tryHs o (try200 o (try400 o (tryEs o s)))))

/-- The bus has come to a mode. -/
structure Ended (m : Mode) (s s' : Bus) : Prop where
  agrees : Matches m s'
  cfg : s'.cfg = s.cfg
  failed : ∀ k ∈ s'.failed, s'.flags.has k = false

theorem IsUp.ended {m : Mode} {f : Flags} {s s' : Bus} (h : IsUp m f s s') (hf : f = m.flags)
    (hfailed : ∀ k ∈ s.failed, m.flags.has k = false) : Ended m s s' := by
  have hflags : s'.flags = m.flags := h.flags.trans hf
  refine ⟨⟨hflags, h.timing, h.hs_timing, h.width⟩, h.cfg, fun k hk => ?_⟩
  rw [h.failed] at hk
  rw [hflags]
  exact hfailed k hk

/-- The modes above HS are given up: no flag changes. -/
theorem fast_givenUp {s : Bus} {o : Outcomes} (h : NoneFast s o) :
    let s' := try200 o (try400 o (tryEs o s))
    s'.cfg = s.cfg ∧ s'.dtr_max_hs = s.dtr_max_hs ∧ s'.flags = s.flags ∧
      ∀ k ∈ s'.failed, k ∈ s.failed ∨ k = .hs400es ∨ k = .hs400 ∨ k = .hs200 := by
  obtain ⟨hes, h400, h200, hpre⟩ := h
  have g₁ := tryEs_givenUp hes
  obtain ⟨x, g₂, hx⟩ := try400_givenUp (mt (up400_congr g₁.cfg g₁.dtr).mp h400)
  have hxs : x = (tryEs o s).flags.hs200 := by
    rcases hx with hx | ⟨-, htries, hworks⟩
    · exact hx
    · exact absurd ⟨(tries400_congr g₁.cfg g₁.dtr).mp htries, hworks⟩ hpre
  subst hxs
  have hc₂ := g₂.cfg.trans g₁.cfg
  have hd₂ := g₂.dtr.trans g₁.dtr
  have g₃ := try200_givenUp (mt (up200_congr hc₂ hd₂).mp h200)
  refine ⟨g₃.cfg.trans hc₂, g₃.dtr.trans hd₂, g₃.flags.trans (g₂.flags.trans g₁.flags),
    fun k hk => ?_⟩
  rcases g₃.failed k hk with hk | hk
  · rcases g₂.failed k hk with hk | hk
    · rcases g₁.failed k hk with hk | hk
      · exact Or.inl hk
      · exact Or.inr (Or.inl hk)
    · exact Or.inr (Or.inr (Or.inl hk))
  · exact Or.inr (Or.inr (Or.inr hk))

theorem tryAll_es {s : Bus} {o : Outcomes} (h : EsUp s o) (hl : Mode.Leaves .hs400es s.flags)
    (hf : s.failed = []) :
    Ended .hs400es s (tryAll o s) := by
  have hup := tryEs_up h
  have hes : (tryEs o s).flags.hs400es = true := by rw [hup.flags]
  have hhs : (tryEs o s).flags.hs = false := by
    rw [hup.flags]
    exact congrArg Flags.hs hl
  rw [tryAll, try400_skip hes, try200_skip (Or.inr hes), rest_skip hhs (Or.inr (Or.inr hes))]
  refine hup.ended ?_ fun k hk => ?_
  · rw [hl]
    rfl
  · rw [hf] at hk
    exact absurd hk List.not_mem_nil

theorem tryAll_400 {s : Bus} {o : Outcomes} (hes : ¬ EsUp s o) (h : Up400 s o)
    (hl : Mode.Leaves .hs400 s.flags) (hf : s.failed = []) : Ended .hs400 s (tryAll o s) := by
  have g₁ := tryEs_givenUp hes
  have hclear : (tryEs o s).flags.hs400es = false := by
    rw [g₁.flags]
    exact congrArg Flags.hs400es hl
  have hup := try400_up hclear ((up400_congr g₁.cfg g₁.dtr).mpr h)
  have h400 : (try400 o (tryEs o s)).flags.hs400 = true := by rw [hup.flags]
  have hhs : (try400 o (tryEs o s)).flags.hs = false := by
    rw [hup.flags, g₁.flags]
    exact congrArg Flags.hs hl
  rw [tryAll, try200_skip (Or.inl h400), rest_skip hhs (Or.inr (Or.inl h400))]
  have hend : Ended .hs400 (tryEs o s) (try400 o (tryEs o s)) := by
    refine hup.ended ?_ fun k hk => ?_
    · rw [g₁.flags, hl]
      rfl
    · rcases g₁.failed k hk with hk | rfl
      · rw [hf] at hk
        exact absurd hk List.not_mem_nil
      · rfl
  exact ⟨hend.agrees, hend.cfg.trans g₁.cfg, hend.failed⟩

theorem tryAll_200 {s : Bus} {o : Outcomes} (hes : ¬ EsUp s o) (h400 : ¬ Up400 s o) (h : Up200 s o)
    (hl : Mode.Leaves .hs200 s.flags) (hf : s.failed = []) : Ended .hs200 s (tryAll o s) := by
  have g₁ := tryEs_givenUp hes
  obtain ⟨x, g₂, -⟩ := try400_givenUp (mt (up400_congr g₁.cfg g₁.dtr).mp h400)
  have hflags : (try400 o (tryEs o s)).flags = { s.flags with hs200 := x } := by
    rw [g₂.flags]
    dsimp only
    rw [g₁.flags]
  have hclear : (try400 o (tryEs o s)).flags.hs400 = false ∧
      (try400 o (tryEs o s)).flags.hs400es = false := by
    rw [hflags]
    exact ⟨congrArg Flags.hs400 hl, congrArg Flags.hs400es hl⟩
  have hc₂ := g₂.cfg.trans g₁.cfg
  have hup := try200_up hclear ((up200_congr hc₂ (g₂.dtr.trans g₁.dtr)).mpr h)
  have h200 : (try200 o (try400 o (tryEs o s))).flags.hs200 = true := by rw [hup.flags]
  have hhs : (try200 o (try400 o (tryEs o s))).flags.hs = false := by
    rw [hup.flags, hflags]
    exact congrArg Flags.hs hl
  rw [tryAll, rest_skip hhs (Or.inl h200)]
  have hend : Ended .hs200 (try400 o (tryEs o s)) (try200 o (try400 o (tryEs o s))) := by
    refine hup.ended ?_ fun k hk => ?_
    · rw [hflags, hl]
      rfl
    · rcases g₂.failed k hk with hk | rfl
      · rcases g₁.failed k hk with hk | rfl
        · rw [hf] at hk
          exact absurd hk List.not_mem_nil
        · rfl
      · rfl
  exact ⟨hend.agrees, hend.cfg.trans hc₂, hend.failed⟩

/-- HS is set up after the modes above it were given up. -/
theorem hs_up {s : Bus} {o : Outcomes} (hnone : NoneFast s o) (h : UpHs s o)
    (hclear : s.flags.hs200 = false ∧ s.flags.hs400 = false ∧ s.flags.hs400es = false)
    (hf : s.failed = []) :
    let s' := tryHs o (try200 o (try400 o (tryEs o s)))
    s'.cfg = s.cfg ∧ s'.flags = { s.flags with hs := true } ∧ s'.timing = .hs ∧ s'.hs_timing = .hs ∧
      s'.bus_width = (try200 o (try400 o (tryEs o s))).bus_width ∧
      ∀ k ∈ s'.failed, k = .hs400es ∨ k = .hs400 ∨ k = .hs200 := by
  obtain ⟨hc, -, hflags, hfailed⟩ := fast_givenUp hnone
  generalize try200 o (try400 o (tryEs o s)) = s₃ at *
  rw [← hflags] at hclear
  have hup := tryHs_up hclear ((upHs_congr hc).mpr h)
  dsimp only
  rw [hup]
  refine ⟨hc, ?_, rfl, rfl, rfl, fun k hk => ?_⟩
  · dsimp only
    rw [hflags]
  · rcases hfailed k hk with hk | hk
    · rw [hf] at hk
      exact absurd hk List.not_mem_nil
    · exact hk

theorem has_of_fast {m : Mode} (hm : m = .hs ∨ m = .ddr) {k : Mode}
    (hk : k = .hs400es ∨ k = .hs400 ∨ k = .hs200) :
    m.flags.has k = false := by
  rcases hm with rfl | rfl <;> rcases hk with rfl | rfl | rfl <;> rfl

theorem tryAll_ddr {s : Bus} {o : Outcomes} (hnone : NoneFast s o) (h : UpHs s o)
    (hw : 4 ≤ mmc_bus_width s.cfg)
    (hddr : UpDdr s o) (hhost : o.hostDdr = true) (hl : Mode.Leaves .ddr s.flags)
    (hf : s.failed = []) :
    Ended .ddr s (tryAll o s) := by
  have hclear : s.flags.hs200 = false ∧ s.flags.hs400 = false ∧ s.flags.hs400es = false :=
    ⟨congrArg Flags.hs200 hl, congrArg Flags.hs400 hl, congrArg Flags.hs400es hl⟩
  obtain ⟨hc, hflags, -, hht, -, hfailed⟩ := hs_up hnone h hclear hf
  rw [tryAll]
  generalize tryHs o (try200 o (try400 o (tryEs o s))) = s₄ at *
  have hhs : s₄.flags.hs = true := by rw [hflags]
  have hw₄ : 4 ≤ mmc_bus_width s₄.cfg := by rw [hc]; exact hw
  have hup := tryWidth_ddr hhs hw₄ ((upDdr_congr hc).mpr hddr) hhost
  rw [hup, fallBack_skip (by exact hhs)]
  have hall : ({ s₄.flags with ddr := true } : Flags) = Mode.flags .ddr := by
    rw [hflags, hl]
    rfl
  refine ⟨⟨hall, rfl, hht, ?_⟩, hc, fun k hk => ?_⟩
  · change ECSD_BUS_WIDTH_DDR < mmc_bus_width s₄.cfg / 4 + ECSD_BUS_WIDTH_DDR ∧
      mmc_bus_width s₄.cfg / 4 + ECSD_BUS_WIDTH_DDR < 2 * ECSD_BUS_WIDTH_DDR
    rcases four_le_cases hw₄ with h4 | h8
    · rw [h4]
      decide
    · rw [h8]
      decide
  · change ({ s₄.flags with ddr := true } : Flags).has k = false
    rw [hall]
    exact has_of_fast (Or.inr rfl) (hfailed k hk)

theorem tryAll_hs {s : Bus} {o : Outcomes} (hnone : NoneFast s o) (h : UpHs s o)
    (hl : Mode.Leaves .hs s.flags) (hf : s.failed = [])
    (hw : if 4 ≤ mmc_bus_width s.cfg then ¬ UpDdr s o ∧ o.width.ok
      else s.bus_width < ECSD_BUS_WIDTH_DDR) :
    Ended .hs s (tryAll o s) := by
  have hclear : s.flags.hs200 = false ∧ s.flags.hs400 = false ∧ s.flags.hs400es = false :=
    ⟨congrArg Flags.hs200 hl, congrArg Flags.hs400 hl, congrArg Flags.hs400es hl⟩
  have hrun : tryAll o s = fallBack o (tryWidth o (tryHs o (try200 o (try400 o (tryEs o s))))) :=
    rfl
  obtain ⟨hc, hflags, ht, hht, hbw, hfailed⟩ := hs_up hnone h hclear hf
  have hall : ({ s.flags with hs := true } : Flags) = Mode.flags .hs := by
    rw [hl]
    rfl
  rw [hall] at hflags
  generalize tryHs o (try200 o (try400 o (tryEs o s))) = s₄ at *
  have hhs : s₄.flags.hs = true := by
    rw [hflags]
    rfl
  by_cases h4 : 4 ≤ mmc_bus_width s.cfg
  · rw [if_pos h4] at hw
    have hddr : s₄.flags.ddr = false := by
      rw [hflags]
      rfl
    have hw₄ : 4 ≤ mmc_bus_width s₄.cfg := by rw [hc]; exact h4
    obtain ⟨failed, hsub, hup⟩ := tryWidth_hs hhs hddr hw₄ (mt (upDdr_congr hc).mp hw.1) hw.2
    rw [hrun, hup, fallBack_skip (by exact hhs)]
    refine ⟨⟨hflags, ht, hht, width_lt s₄.cfg⟩, hc, fun k hk => ?_⟩
    change s₄.flags.has k = false
    rw [hflags]
    rcases hsub k hk with hk | rfl
    · exact has_of_fast (Or.inl rfl) (hfailed k hk)
    · rfl
  · rw [if_neg h4] at hw
    -- on a bus of one bit no faster mode was tried
    have hslow : ∀ n, 4 ≤ n → ∀ s' : Bus, s'.cfg = s.cfg → ¬ Fast s' n := by
      intro n hn s' hs' hfast
      have hle := hfast.2
      rw [hs'] at hle
      omega
    have h₁ : tryEs o s = s := if_neg fun htried => hslow 8 (by decide) s rfl htried.2
    have h₂ : try400 o s = s := if_neg fun htried => hslow 8 (by decide) s rfl htried.2.2
    have h₃ : try200 o s = s := if_neg fun htried => hslow 4 (by decide) s rfl htried.2.2
    rw [h₁, h₂, h₃] at hbw
    have hnarrow : ¬ (s₄.flags.hs = true ∧ 4 ≤ mmc_bus_width s₄.cfg) := by
      rw [hc]
      exact fun hboth => h4 hboth.2
    rw [hrun, tryWidth_narrow hnarrow, fallBack_skip hhs]
    refine ⟨⟨hflags, ht, hht, ?_⟩, hc, fun k hk => ?_⟩
    · change s₄.bus_width < ECSD_BUS_WIDTH_DDR
      rw [hbw]
      exact hw
    · rw [hflags]
      exact has_of_fast (Or.inl rfl) (hfailed k hk)

theorem tryAll_ls {s : Bus} {o : Outcomes} (hnone : NoneFast s o) (h : ¬ UpHs s o)
    (hcalm : Untouched s o)
    (hhost : o.hostLs = true) (hht : s.hs_timing = .ls) (hw : s.bus_width < ECSD_BUS_WIDTH_DDR)
    (hl : Mode.Leaves .ls s.flags) : Ended .ls s (tryAll o s) := by
  have g₁ := tryEs_givenUp hnone.1
  obtain ⟨x, g₂, -⟩ := try400_givenUp (mt (up400_congr g₁.cfg g₁.dtr).mp hnone.2.1)
  have hu₁ := hcalm.congr g₁.cfg g₁.dtr
  have hu₂ : Untouched (try400 o (tryEs o s)) o :=
    hcalm.congr (g₂.cfg.trans g₁.cfg) (g₂.dtr.trans g₁.dtr)
  obtain ⟨hc₃, hd₃, hflags₃, -⟩ := fast_givenUp hnone
  have hc : Calm s (tryHs o (try200 o (try400 o (tryEs o s)))) :=
    (tryEs_calm hcalm).trans <| (try400_calm hu₁).trans <| (try200_calm hu₂).trans <|
      tryHs_calm (hcalm.congr hc₃ hd₃)
  obtain ⟨hc₄, hflags₄, -⟩ := tryHs_givenUp (mt (upHs_congr hc₃).mp h)
  rw [tryAll]
  generalize tryHs o (try200 o (try400 o (tryEs o s))) = s₄ at *
  have hflags : s₄.flags = {} := hflags₄.trans (hflags₃.trans hl)
  have hhs : s₄.flags.hs = false := by rw [hflags]
  rw [tryWidth_narrow fun hboth => absurd (hhs.symm.trans hboth.1) (by decide)]
  have hnoflag : s₄.flags.hs400es = false ∧ s₄.flags.hs400 = false ∧ s₄.flags.hs200 = false ∧
      s₄.flags.hs = false := by
    rw [hflags]
    exact ⟨rfl, rfl, rfl, rfl⟩
  have hfall : fallBack o s₄ = { s₄ with timing := .ls } := by
    rw [fallBack, if_pos hnoflag, sdio_timing, if_pos hhost]
  rw [hfall]
  refine ⟨⟨hflags, rfl, hc.hs_timing.trans hht, hc.width hw⟩, hc₄.trans hc₃, fun k _ => ?_⟩
  change s₄.flags.has k = false
  rw [hflags]
  cases k <;> rfl

/-- **An initialisation ends in the mode that was set up.** -/
theorem tryAll_ended {m : Mode} {s : Bus} {o : Outcomes} (hr : Reaches s o m)
    (hl : m.Leaves s.flags) (hf : s.failed = []) :
    Ended m s (tryAll o s) := by
  cases m with
  | ls =>
      obtain ⟨hnone, hhs, hcalm, hhost, hht, hw⟩ := hr
      exact tryAll_ls hnone hhs hcalm hhost hht hw hl
  | hs =>
      obtain ⟨hnone, hhs, hw⟩ := hr
      exact tryAll_hs hnone hhs hl hf hw
  | ddr =>
      obtain ⟨hnone, hhs, hw, hddr, hhost⟩ := hr
      exact tryAll_ddr hnone hhs hw hddr hhost hl hf
  | hs200 =>
      obtain ⟨hes, h400, h200⟩ := hr
      exact tryAll_200 hes h400 h200 hl hf
  | hs400 =>
      obtain ⟨hes, h400⟩ := hr
      exact tryAll_400 hes h400 hl hf
  | hs400es => exact tryAll_es hr hl hf

/-! ### Every history -/

/-- The modes that were disabled have lost their capability; HS is never disabled. -/
def Disabled (s : Bus) : Prop := ∀ m ∈ s.cfg.disabled, s.cfg.caps.has m = false ∧ m ≠ .hs

/-- A mode that is reached has its capability. -/
theorem Reaches.caps {m : Mode} {s : Bus} {o : Outcomes} (h : Reaches s o m) :
    ∀ k, m.flags.has k = true →
    k = .hs ∨ s.cfg.caps.has k = true := by
  intro k hk
  cases m with
  | ls => cases k <;> exact (nomatch hk)
  | hs =>
      cases k with
      | hs => exact Or.inl rfl
      | _ => exact (nomatch hk)
  | ddr =>
      cases k with
      | hs => exact Or.inl rfl
      | ddr => exact Or.inr h.2.2.2.1.1
      | _ => exact (nomatch hk)
  | hs200 =>
      cases k with
      | hs200 => exact Or.inr h.2.2.1.1
      | _ => exact (nomatch hk)
  | hs400 =>
      cases k with
      | hs400 => exact Or.inr h.2.1.1.1
      | _ => exact (nomatch hk)
  | hs400es =>
      cases k with
      | hs400es => exact Or.inr h.1.1
      | _ => exact (nomatch hk)

theorem init_eq (o : Outcomes) (s : Bus) :
    mmc_init_bus o s = (o.blklen, { tryAll o { s with failed := [] } with settled := o.blklen }) :=
  rfl

/-- What failed before does not matter. -/
theorem Reaches.clear {m : Mode} {s : Bus} {o : Outcomes} (h : Reaches s o m) :
    Reaches { s with failed := [] } o m := by
  cases m with
  | ls =>
      obtain ⟨hnone, hhs, hcalm, hrest⟩ := h
      exact ⟨hnone, hhs, hcalm.congr rfl rfl, hrest⟩
  | _ => exact h

/-- One initialisation. -/
theorem init_correct {s : Bus} {o : Outcomes} (hd : Disabled s) (h : Sound s o) :
    Correct (mmc_init_bus o s).2 ∧ (mmc_init_bus o s).2.cfg = s.cfg := by
  obtain ⟨m, hr, hl⟩ := h
  have hend := tryAll_ended hr.clear hl rfl
  rw [init_eq]
  generalize tryAll o { s with failed := [] } = s' at hend
  refine ⟨⟨⟨m, hend.agrees.flags, hend.agrees.timing, hend.agrees.hs_timing, hend.agrees.width⟩,
    hend.failed, ?_⟩, hend.cfg⟩
  intro k hk
  change s'.flags.has k = false
  change k ∈ s'.cfg.disabled at hk
  rw [hend.cfg] at hk
  obtain ⟨hcap, hne⟩ := hd k hk
  rw [hend.agrees.flags]
  by_contra hset
  rcases hr.caps k ((Bool.not_eq_false _).mp hset) with hhs | hcap'
  · exact hne hhs
  · exact absurd (hcap.symm.trans hcap') (by decide)

/-- The condition of a history: every initialisation has what it needs. -/
def AllSound : Bus → List Op → Prop
  | _, [] => True
  | s, op :: ops => (∀ s' o, op.start s = some (s', o) → Sound s' o) ∧ AllSound (op.apply s) ops

theorem slowDown_disabled {s : Bus} (h : Disabled s) : Disabled (slowDown s) := by
  -- a mode loses its capability as it is added to the list; the others keep what they have lost
  have hkeeps : ∀ (m : Mode) (caps : Flags), m ≠ .hs → caps.has m = false →
      (∀ k, s.cfg.caps.has k = false → caps.has k = false) →
      ∀ k ∈ m :: s.cfg.disabled, caps.has k = false ∧ k ≠ .hs := by
    intro m caps hne hoff hmono k hk
    rcases List.mem_cons.mp hk with rfl | hk
    · exact ⟨hoff, hne⟩
    · exact ⟨hmono k (h k hk).1, (h k hk).2⟩
  unfold slowDown
  dsimp only
  split_ifs
  · exact hkeeps .hs400es _ (by decide) rfl fun k hk => by cases k <;> first | rfl | exact hk
  · exact hkeeps .hs400 _ (by decide) rfl fun k hk => by cases k <;> first | rfl | exact hk
  · exact hkeeps .hs200 _ (by decide) rfl fun k hk => by cases k <;> first | rfl | exact hk
  · exact hkeeps .ddr _ (by decide) rfl fun k hk => by cases k <;> first | rfl | exact hk
  · exact fun m hm => h m hm
  · exact fun m hm => h m hm
  · exact h

/-- Before an initialisation the disabled modes are known. -/
theorem start_disabled {s s' : Bus} {o : Outcomes} {op : Op} (h : Disabled s)
    (hs : op.start s = some (s', o)) : Disabled s' := by
  cases op with
  | attach cfg dtr powered o' =>
      obtain ⟨rfl, -⟩ := Prod.mk.inj (Option.some.inj hs)
      cases powered <;> exact fun k hk => absurd hk List.not_mem_nil
  | reset o' =>
      obtain ⟨rfl, -⟩ := Prod.mk.inj (Option.some.inj hs)
      exact h
  | resetFails => exact (nomatch hs)
  | busError o' =>
      obtain ⟨rfl, -⟩ := Prod.mk.inj (Option.some.inj hs)
      exact slowDown_disabled h
  | retune _ _ _ => exact (nomatch hs)

theorem retune_cfg (o : To200Run) (tune : Bool) (o' : To400Run) (s : Bus) :
    (mmc_retune o tune o' s).2.cfg = s.cfg := by
  have h200 : SetsUp (mmc_hs400_to_hs200 o) _ _ :=
    (sendTiming_touches o.hs .hs).setsUp <| (sdio_timing_touches o.hostDdr .ddr50).anyway <|
    (check_touches o.ready).setsUp <| (switchWidth_touches o.width ECSD_BUS_WIDTH_8).setsUp <|
    (check_touches o.readyWidth).setsUp <| (sdio_timing_touches o.hostHs .hs).setsUp <|
    (switchTiming_touches o.hs200 .hs200).setsUp <| (sdio_timing_touches o.host .hs200).setsUp <|
    (check_touches o.readyEnd).setsUp <| setFlags_setsUp fun f =>
      { f with hs200 := true, hs400 := false }
  have h400 := to_hs400_setsUp o'
  rw [mmc_retune]
  split
  · have htail : ∀ s, (((check tune).then (mmc_hs200_to_hs400 o')) s).2.cfg = s.cfg := by
      intro s
      unfold Step.then
      split
      · exact (h400.registers _).cfg
      · rfl
    unfold Step.then at htail ⊢
    split
    · exact (htail _).trans (h200.registers s).cfg
    · exact (h200.registers s).cfg
  · rfl

/-- Whenever an initialisation has just succeeded, the flags are correct. -/
structure Inv (s : Bus) : Prop where
  disabled : Disabled s
  correct : s.settled = true → Correct s

theorem Inv.apply {s : Bus} (hi : Inv s) (op : Op)
    (h : ∀ s' o, op.start s = some (s', o) → Sound s' o) :
    Inv (op.apply s) := by
  unfold Op.apply
  cases hstart : op.start s with
  | some r =>
      obtain ⟨s', o⟩ := r
      have hd := start_disabled hi.disabled hstart
      obtain ⟨hcorrect, hcfg⟩ := init_correct hd (h s' o hstart)
      refine ⟨?_, fun _ => hcorrect⟩
      change Disabled (mmc_init_bus o s').2
      rw [Disabled, hcfg]
      exact hd
  | none =>
      cases op with
      | retune o tune o' =>
          refine ⟨?_, fun h => (nomatch h)⟩
          change ∀ m ∈ (mmc_retune o tune o' s).2.cfg.disabled,
            (mmc_retune o tune o' s).2.cfg.caps.has m = false ∧ m ≠ .hs
          rw [retune_cfg]
          exact hi.disabled
      | attach _ _ _ _ => exact ⟨hi.disabled, fun h => (nomatch h)⟩
      | reset _ => exact ⟨hi.disabled, fun h => (nomatch h)⟩
      | resetFails => exact ⟨hi.disabled, fun h => (nomatch h)⟩
      | busError _ => exact ⟨hi.disabled, fun h => (nomatch h)⟩

theorem inv_run (ops : List Op) : ∀ {s : Bus}, Inv s → AllSound s ops → Inv (run s ops) := by
  induction ops with
  | nil => exact fun hi _ => hi
  | cons op ops ih => exact fun hi hall => ih (hi.apply op hall.1) hall.2

/-- A slot before the first card. -/
def empty (cfg : Config) : Bus := { cfg := { cfg with disabled := [] }, dtr_max_hs := 0 }

/-- **In every history of sound initialisations, whenever one succeeds, the flags are correct.** -/
theorem init_run (cfg : Config) {ops : List Op} (h : AllSound (empty cfg) ops)
    (hs : (run (empty cfg) ops).settled = true) :
    Correct (run (empty cfg) ops) := by
  have hstart : Inv (empty cfg) :=
    ⟨fun _ hk => absurd hk List.not_mem_nil, fun hsettled => absurd hsettled Bool.false_ne_true⟩
  exact (inv_run ops hstart h).correct hs

/-- A card with HS200 on a bus of eight bits. -/
def card200 : Config where
  caps := { hs := true, hs200 := true }
  hs400_1_2v := false
  hs400_1_8v := false
  hs200_1_2v := false
  hs200_1_8v := true
  ddr_1_2v := false
  sv_1_2v := false
  sv_1_8v := true
  bw8 := true
  bw4 := true

/-- The card comes up in HS200; after bus errors it is set up again, in HS, and once more after a
reset, with the flag of HS left from before. -/
theorem init_run_slower :
    (run (empty card200) [.attach card200 200000000 true {}, .busError {}, .reset {}]).flags =
    { hs := true } ∧
    Correct (run (empty card200) [.attach card200 200000000 true {}, .busError {}, .reset {}]) := by
  have hfast : ∀ s : Bus, s.cfg.caps = { hs := true } → ∀ o, NoneFast s o := by
    intro s hcaps o
    refine ⟨fun h => ?_, fun h => ?_, fun h => ?_, fun h => ?_⟩
    · exact absurd h.1.1 (by rw [hcaps]; decide)
    · exact absurd h.1.1.1 (by rw [hcaps]; decide)
    · exact absurd h.1.1 (by rw [hcaps]; decide)
    · exact absurd h.1.1.1 (by rw [hcaps]; decide)
  refine ⟨by decide,
    init_run card200 ⟨fun s' o h => ?_, fun s' o h => ?_, fun s' o h => ?_, trivial⟩ (by decide)⟩
  · obtain ⟨rfl, rfl⟩ := Prod.mk.inj (Option.some.inj h)
    refine ⟨.hs200, ⟨fun h => absurd h.1.1 (by decide), fun h => absurd h.1.1.1 (by decide), ?_⟩,
      rfl⟩
    exact ⟨⟨by decide, by decide, by decide⟩, by decide, by decide⟩
  · obtain ⟨rfl, rfl⟩ := Prod.mk.inj (Option.some.inj h)
    refine ⟨.hs, ⟨hfast _ (by decide) _, ⟨by decide, by decide, by decide⟩, ?_⟩, rfl⟩
    rw [if_pos (by decide)]
    exact ⟨fun h => absurd h.1 (by decide), by decide⟩
  · obtain ⟨rfl, rfl⟩ := Prod.mk.inj (Option.some.inj h)
    refine ⟨.hs, ⟨hfast _ (by decide) _, ⟨by decide, by decide, by decide⟩, ?_⟩, rfl⟩
    rw [if_pos (by decide)]
    exact ⟨fun h => absurd h.1 (by decide), by decide⟩

/-- After a reset the card refuses HS200: the flag of the first initialisation is still there. -/
theorem flag_after_reset :
    let s := run (empty card200)
      [.attach card200 200000000 true {}, .reset { hs200 := { timing := ⟨false, true⟩ } }]
    s.settled = true ∧ ¬ Correct s := by
  refine ⟨by decide, fun h => ?_⟩
  exact absurd (h.failed .hs200 (by decide)) (by decide)

end Sdmmc.Speed
