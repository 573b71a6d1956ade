import RpiBsp.Ota.Config
import RpiBsp.Ota.Version

/-!
# OTA — Settings

The client has its settings in `g_config`.  `main` fills it with defaults and reads a file over
them, and every pass of the loop asks the server for such a file: if it differs from the one at
hand, it is stored and read as well.  Among the settings are the paths of the files that an update
works on.

* `read_config`, `check_and_update_config` — a file over the settings, and the file that the server
has;
* `paths_foldl_readLine` — settings without a line for a path keep the paths;
* `holds_check_and_update_config` — only files with settings change.
-/

namespace Ota

open Support

structure OTAConfig where
  server_url : Text
  check_interval : ℤ
  enabled : Bool
  boot_path : Text
  version_file : Text
  config_file : Text
  log_file : Text
  ota_config_path : Text
deriving DecidableEq, Repr

/-- The paths that settings can move. -/
def OTAConfig.paths (g : OTAConfig) : List Text :=
  [g.boot_path, g.version_file, g.config_file, g.log_file]

/-- What `main` starts with, for the file it is given. -/
def defaults (ota_config_path : Text) : OTAConfig where
  server_url := "http://192.168.50.148:8080".toList
  check_interval := 300
  enabled := true
  boot_path := "/var/boot".toList
  version_file := "/var/boot/ota_version".toList
  config_file := "/var/boot/config.txt".toList
  log_file := "/tmp/ota_client.log".toList
  ota_config_path := ota_config_path

/-- A line that is none, or a comment, or has another key, changes nothing. -/
def readLine (g : OTAConfig) (line : Text) : OTAConfig :=
  if line = [] ∨ line.head? = some '#' then g
  else
    match find '=' line 0 with
    | none => g
    | some pos =>
      let key := trim (substr line 0 pos)
      let value := trim (line.drop (pos + 1))
      if key = "OTA_SERVER".toList then { g with server_url := value }
      else if key = "OTA_CHECK_INTERVAL".toList then
        match stoi value with
        | some n => if n > 0 then { g with check_interval := n } else g
        -- an exception is only logged
        | none => g
      else if key = "OTA_ENABLED".toList then { g with enabled := value = ['1'] }
      else if key = "BOOT_PATH".toList then
        { g with boot_path := value, version_file := value ++ "/ota_version".toList }
      else if key = "CONFIG_FILE".toList then { g with config_file := value }
      else if key = "LOG_FILE".toList then { g with log_file := value }
      else g

/-- Settings that cannot be read stay. -/
def read_config (opens : Bool) (config_path : Text) (g : OTAConfig) : Steps Disk OTAConfig := do
  match ← ifstream opens (.settings config_path) with
  | none => return g
  | some text => return (lines text).foldl readLine g

def read_file_content (opens : Bool) (path : Text) : Steps Disk Text := do
  let file ← ifstream opens (.settings path)
  return file.getD []

def looks_like_ota_config (content : Text) : Bool :=
  (lines content).any fun line => "OTA_SERVER=".toList <+: line.dropWhile isIndent

/-- Where a served file is put to be read. -/
def newSettings : Text := "/tmp/ota_config.new".toList

/-- Where it is kept if it cannot take the place of the old one. -/
def fallback : Text := "/tmp/ota_config".toList

/-- What comes of the calls of `check_and_update_config`; `reply` is the answer to the request for
the settings. -/
structure Reload where
  reply : Option Text
  compared : Bool
  tmp : Create
  backedUp : Bool
  dst : Create
  bak : Create
  fb : Create
  read : Bool
deriving DecidableEq, Repr

/-- A stream that is written if it is open. -/
def writeSettings (o : Create) (path text : Text) : Steps Disk Unit := do
  if ← ofstream o.opens (.settings path) then put o.stored (.settings path) text

/-- The file is kept, and the path that it has then is returned. -/
def persist (o : Reload) (path remote : Text) : Steps Disk Text := do
  let saved ← read_file_content o.backedUp path
  if ← ofstream o.dst.opens (.settings path) then
    -- the copy is closed first
    writeSettings o.bak (path ++ ".bak".toList) saved
    put o.dst.stored (.settings path) remote
    return path
  else
    writeSettings o.fb fallback remote
    return fallback

/-- The settings after the server was asked for them. -/
def check_and_update_config (o : Reload) (g : OTAConfig) : Steps Disk OTAConfig := do
  match o.reply with
  | none => return g
  | some remote =>
    if remote = [] ∨ ¬ looks_like_ota_config remote then return g
    else
      let here ← read_file_content o.compared g.ota_config_path
      if remote = here then return g
      else if ← ofstream o.tmp.opens (.settings newSettings) then
        put o.tmp.stored (.settings newSettings) remote
        let path ← persist o g.ota_config_path remote
        let g ← read_config o.read newSettings g
        return { g with ota_config_path := path }
      else return g

/-! ### What changes -/

section

variable {g : OTAConfig} {d : Disk}

/-- The keys of the settings that move a path. -/
def pathKeys : List Text := ["BOOT_PATH".toList, "CONFIG_FILE".toList, "LOG_FILE".toList]

/-- The line has none of these keys. -/
def MovesNothing (line : Text) : Prop :=
  ∀ pos, find '=' line 0 = some pos → trim (substr line 0 pos) ∉ pathKeys

theorem paths_readLine {line : Text} (h : MovesNothing line) :
    (readLine g line).paths = g.paths := by
  unfold readLine
  split
  case isTrue => rfl
  case isFalse =>
      cases hfind : find '=' line 0 with
      | none => rfl
      | some pos =>
          have hkey := h pos hfind
          simp only [pathKeys, List.mem_cons, List.not_mem_nil, or_false, not_or] at hkey
          obtain ⟨hboot, hconfig, hlog⟩ := hkey
          dsimp only
          rw [if_neg hboot, if_neg hconfig, if_neg hlog]
          cases stoi (trim (line.drop (pos + 1))) with
          | none => split_ifs <;> rfl
          | some n => dsimp only; split_ifs <;> rfl

/-- **Settings without a line for a path** keep the paths. -/
theorem paths_foldl_readLine {ls : List Text} (h : ∀ l ∈ ls, MovesNothing l) :
    (ls.foldl readLine g).paths = g.paths := by
  induction ls generalizing g with
  | nil => rfl
  | cons l ls ih =>
      rw [List.foldl_cons, ih fun m hm =>
        h m (List.mem_cons_of_mem _ hm), paths_readLine (h l List.mem_cons_self)]

/-- Other files than those with settings are as they were. -/
def SettingsOnly (d d' : Disk) : Prop := ∀ p, (∀ path, p ≠ .settings path) → d' p = d p

theorem SettingsOnly.refl (d : Disk) : SettingsOnly d d := fun _ _ => rfl

theorem SettingsOnly.update {d d' : Disk} (h : SettingsOnly d d') (path : Text)
    (text : Option Text) :
    SettingsOnly d (Function.update d' (.settings path) text) :=
  fun p hp => (Function.update_of_ne (hp path) _ _).trans (h p hp)

theorem settings_ne {path : Text} (h : path ≠ newSettings) :
    Path.settings newSettings ≠ .settings path :=
  fun heq => h (Path.settings.inj heq).symm

/-- A file with settings is written, or cannot be opened. -/
theorem holds_writeSettings {d' : Disk} (h : SettingsOnly d d') (o : Create) {path : Text}
    (hne : path ≠ newSettings) (text : Text) : (writeSettings o path text).Holds (SettingsOnly d)
      (fun _ t => SettingsOnly d t ∧ t (.settings newSettings) = d' (.settings newSettings))
        d' := by
  have hother : ∀ (t : Disk) text, Function.update t (.settings path) text (.settings newSettings) =
      t (.settings newSettings) := fun t text => Function.update_of_ne (settings_ne hne) _ _
  refine Steps.Holds.bind
    (R := fun _ t => SettingsOnly d t ∧ t (.settings newSettings) = d' (.settings newSettings))
    (holds_ofstream (fun _ => ⟨h.update _ _, h.update _ _, hother _ _⟩) fun _ => ⟨h, rfl⟩) ?_
  rintro opened t ⟨ht, hsame⟩
  refine Steps.Holds.ite (fun _ => ?_) fun _ => .pure ⟨ht, hsame⟩
  exact holds_put (ht.update _ _) ⟨ht.update _ _, (hother _ _).trans hsame⟩

theorem holds_read_file_content {P : Disk → Prop} (opens : Bool) (path : Text) :
    (read_file_content opens path).Holds P
      (fun text t => text = ((if opens then d (.settings path) else none).getD []) ∧ d = t) d :=
  Steps.Holds.bind (R := fun f t => f = (if opens then d (.settings path) else none) ∧ d = t)
    (holds_ifstream ⟨rfl, rfl⟩) fun _ _ hf => .pure ⟨by rw [hf.1], hf.2⟩

/-- What is then under the name it was put to be read: the same, unless that is where it is kept. -/
def served (o : Reload) (path remote : Text) : Text :=
  remote.take (if path = newSettings ∧ o.dst.opens then o.dst.stored else o.tmp.stored)

theorem bak_ne_newSettings (path : Text) : path ++ ".bak".toList ≠ newSettings := fun h =>
  absurd (List.isSuffixOf_iff_suffix.mpr ⟨path, h⟩) (by decide)

theorem holds_persist {d' : Disk} (h : SettingsOnly d d') {o : Reload} {path remote : Text}
    (htmp : d' (.settings newSettings) = some (remote.take o.tmp.stored)) :
    (persist o path remote).Holds (SettingsOnly d)
      (fun _ t => SettingsOnly d t ∧ t (.settings newSettings) = some (served o path remote))
        d' := by
  refine Steps.Holds.bind (holds_read_file_content _ _) ?_
  rintro saved _ ⟨-, rfl⟩
  refine Steps.Holds.bind (R := fun b t => b = o.dst.opens ∧ SettingsOnly d t ∧
      (path ≠ newSettings ∨ b = false → t (.settings newSettings) = d' (.settings newSettings)))
    (holds_ofstream (fun ho => ⟨h.update _ _, ho.symm, h.update _ _, fun hne => ?_⟩)
      fun ho => ⟨ho.symm, h, fun _ => rfl⟩) ?_
  · exact Function.update_of_ne (settings_ne (hne.resolve_right (by decide))) _ _
  rintro _ t ⟨rfl, ht, hsame⟩
  refine Steps.Holds.ite (fun hopens => ?_) fun hopens => ?_
  · refine Steps.Holds.bind (holds_writeSettings ht o.bak (bak_ne_newSettings path) saved) ?_
    rintro _ t' ⟨ht', hsame'⟩
    refine Steps.Holds.bind (holds_put (ht'.update _ _)
      (Q := fun _ t => SettingsOnly d t ∧ t (.settings newSettings) = some (served o path remote))
        ⟨ht'.update _ _, ?_⟩)
      fun _ _ h => .pure h
    by_cases hpath : path = newSettings
    · rw [served, if_pos ⟨hpath, hopens⟩, hpath, Function.update_self]
    · rw [served, if_neg fun h => hpath h.1, Function.update_of_ne (settings_ne hpath), hsame',
        hsame (.inl hpath), htmp]
  · refine Steps.Holds.bind (holds_writeSettings ht o.fb (by decide) remote) ?_
    rintro _ t' ⟨ht', hsame'⟩
    refine .pure ⟨ht', ?_⟩
    rw [served, if_neg fun h =>
      hopens h.2, hsame', hsame (.inr (Bool.eq_false_iff.mpr hopens)), htmp]

/-- The file of the server is read over the settings. -/
structure Takes (o : Reload) (g : OTAConfig) (d : Disk) (remote : Text) : Prop where
  reply : o.reply = some remote
  ne_nil : remote ≠ []
  looks : looks_like_ota_config remote = true
  differs : remote ≠ (if o.compared then d (.settings g.ota_config_path) else none).getD []
  opens : o.tmp.opens = true
  read : o.read = true

/-- A file of the server that is taken keeps the paths. -/
def KeepsPaths (o : Reload) (g : OTAConfig) (d : Disk) : Prop :=
  ∀ remote, Takes o g d remote →
    ((lines (served o g.ota_config_path remote)).foldl readLine g).paths = g.paths

/-- **The server is asked for settings**: only files with settings change, and the paths stay if the
file that is taken keeps them. -/
theorem holds_check_and_update_config {o : Reload} (hkeeps : KeepsPaths o g d) :
    (check_and_update_config o g).Holds (SettingsOnly d)
      (fun g' t => SettingsOnly d t ∧ g'.paths = g.paths) d := by
  have hskip : SettingsOnly d d ∧ g.paths = g.paths := ⟨.refl d, rfl⟩
  unfold check_and_update_config
  cases hreply : o.reply with
  | none => exact .pure hskip
  | some remote =>
      refine Steps.Holds.ite (fun _ => .pure hskip) fun hlooks => ?_
      refine Steps.Holds.bind (holds_read_file_content _ _) ?_
      rintro here _ ⟨rfl, rfl⟩
      refine Steps.Holds.ite (fun _ => .pure hskip) fun hdiffers => ?_
      refine Steps.Holds.bind (R := fun b t => b = o.tmp.opens ∧ SettingsOnly d t)
        (holds_ofstream (fun h =>
            ⟨(SettingsOnly.refl d).update _ _, h.symm, (SettingsOnly.refl d).update _ _⟩)
          fun h => ⟨h.symm, .refl d⟩) ?_
      rintro _ t ⟨rfl, ht⟩
      refine Steps.Holds.ite (fun hopens => ?_) fun _ => .pure ⟨ht, rfl⟩
      refine Steps.Holds.bind (holds_put (ht.update _ _) (Q := fun _ t => SettingsOnly d t ∧
        t (.settings newSettings) = some (remote.take o.tmp.stored))
          ⟨ht.update _ _, Function.update_self ..⟩) ?_
      rintro _ t ⟨ht, htmp⟩
      refine Steps.Holds.bind (holds_persist ht htmp) ?_
      rintro path t ⟨ht, hserved⟩
      refine Steps.Holds.bind (R := fun g' t => SettingsOnly d t ∧ g'.paths = g.paths)
        (Steps.Holds.bind (R := fun f t =>
            f = (if o.read then some (served o g.ota_config_path remote) else none) ∧
          SettingsOnly d t) (holds_ifstream ⟨by rw [hserved], ht⟩) ?_) ?_
      · rintro _ t ⟨rfl, ht⟩
        cases hread : o.read with
        | false => exact .pure ⟨ht, rfl⟩
        | true =>
            rw [not_or, not_not] at hlooks
            exact .pure ⟨ht, hkeeps remote ⟨hreply, hlooks.1, hlooks.2, hdiffers, hopens, hread⟩⟩
      · rintro g' t ⟨ht, hpaths⟩
        exact .pure ⟨ht, hpaths⟩

end

end Ota
