import RpiBsp.Ota.Files

/-!
# OTA — config.txt

The line `kernel=` of `config.txt` says which image the firmware boots.  `get_active_ifs` reads it,
`set_active_ifs` changes it: a copy of the file, a new text with other `kernel=` lines, and a
rename.  If that fails, the copy is written back.

* `name_of_get_active` — what is read is a name;
* `get_active_rewrite` — in a text with its lines rewritten the new name is read;
* `result_set_active_ifs` — what a call comes back with, and what `config.txt` then is;
* `set_active_iff` — **main**: when a call that succeeds leaves the rewritten text, and one that
fails the old one.
-/

namespace Ota

open Support

def kernelKey : Text := "kernel=".toList

def isIndent (c : Char) : Bool := c = ' ' || c = '\t'

/-- The name in a `kernel=` line that is no comment; empty if there is none. -/
def kernel_ifs_from_line (line : Text) : Text :=
  let rest := line.dropWhile isIndent
  if rest = [] ∨ rest.head? = some '#' then []
  else if ¬ kernelKey <+: rest then []
  else
    let name := trim (rest.drop 7)
    match find '#' name 0 with
    | some hash => trim (substr name 0 hash)
    | none => name

/-- The first name in a text. -/
def activeName (text : Text) : Option Text := ((lines text).map kernel_ifs_from_line).find? (· ≠ [])

/-- `none` is a failure. -/
def get_active_ifs (opens : Bool) : Steps Disk (Option Text) := do
  match ← ifstream opens .config with
  | none => return none
  | some text => return activeName text

/-- What comes of the calls of `restore_config_bak`. -/
structure Restore where
  seen : Bool
  src : Bool
  dst : Create
deriving DecidableEq, Repr

def restore_config_bak (o : Restore) : Steps Disk Bool := do
  if ← file_exists o.seen .config_bak then
    let src ← ifstream o.src .config_bak
    let dst ← ofstream o.dst.opens .config
    match src, dst with
    | some text, true =>
      put o.dst.stored .config text
      return true
    | _, _ => return false
  else return false

/-- The lines of the new text. -/
def rewrite (new_ifs : Text) (ls : List Text) : List Text :=
  ls.map (fun l => if kernel_ifs_from_line l ≠ [] then kernelKey ++ new_ifs else l) ++
    if ls.any (kernel_ifs_from_line · ≠ []) then [] else [kernelKey ++ new_ifs]

/-- What comes of the calls of `set_active_ifs`. -/
structure Switch where
  bakSrc : Bool
  bak : Create
  src : Bool
  tmp : Create
  fsync : Bool
  rename : Bool
  remove : Bool
  restore : Restore
deriving DecidableEq, Repr

/-- The copy of `config.txt`: if it cannot be made, that is only logged. -/
def backup (o : Switch) : Steps Disk Unit := do
  let src ← ifstream o.bakSrc .config
  let dst ← ofstream o.bak.opens .config_bak
  match src, dst with
  | some text, true => put o.bak.stored .config_bak text
  | _, _ => return ()

/-- The failure paths of `set_active_ifs`. -/
def giveUp (o : Switch) : Steps Disk Bool := do
  remove_file o.remove .config_tmp
  let _ ← restore_config_bak o.restore
  return false

def set_active_ifs (o : Switch) (new_ifs : Text) : Steps Disk Bool := do
  backup o
  let old ← ifstream o.src .config
  let ls := rewrite new_ifs ((old.map lines).getD [])
  if ← ofstream o.tmp.opens .config_tmp then
    put o.tmp.stored .config_tmp (render ls)
    if ← fsync_path o.fsync .config_tmp then
      if ← rename o.rename .config_tmp .config then return true
      else giveUp o
    else giveUp o
  else return false

/-! ### Names -/

/-- A name that a `kernel=` line can have. -/
structure Name (n : Text) : Prop where
  ne_nil : n ≠ []
  trimmed : Trimmed n
  hash : '#' ∉ n
  newline : '\n' ∉ n

/-- A `kernel=` line that is no comment, with a name or without one. -/
def KernelLine (line : Text) : Prop := kernelKey <+: line.dropWhile isIndent

instance (line : Text) : Decidable (KernelLine line) := inferInstanceAs (Decidable (_ <+: _))

theorem kernelLine_of_ne_nil {l : Text} (h : kernel_ifs_from_line l ≠ []) : KernelLine l := by
  unfold kernel_ifs_from_line at h
  by_contra hk
  have hk' : ¬ kernelKey <+: l.dropWhile isIndent := hk
  refine h ?_
  dsimp only
  split
  case isTrue => rfl
  case isFalse => rfl

theorem kernelKey_eq : kernelKey = 'k' :: kernelKey.tail := rfl

theorem kernel_ifs_of_kernelLine {l : Text} (h : KernelLine l) :
    kernel_ifs_from_line l =
      match find '#' (trim ((l.dropWhile isIndent).drop 7)) 0 with
      | some hash => trim (substr (trim ((l.dropWhile isIndent).drop 7)) 0 hash)
      | none => trim ((l.dropWhile isIndent).drop 7) := by
  have hk : kernelKey <+: l.dropWhile isIndent := h
  have hstart : ¬ (l.dropWhile isIndent = [] ∨ (l.dropWhile isIndent).head? = some '#') := by
    obtain ⟨t, ht⟩ := h
    rw [← ht, kernelKey_eq]
    simp
  unfold kernel_ifs_from_line
  dsimp only
  rw [if_neg hstart, if_neg (not_not_intro hk)]

/-- What is read from a line is a name, if anything is. -/
theorem name_of_kernel_ifs {l : Text} (hl : '\n' ∉ l) (h : kernel_ifs_from_line l ≠ []) :
    Name (kernel_ifs_from_line l) := by
  have hk := kernelLine_of_ne_nil h
  rw [kernel_ifs_of_kernelLine hk] at h ⊢
  have hsub : ∀ c ∈ trim ((l.dropWhile isIndent).drop 7), c ∈ l := fun c hc =>
    (List.dropWhile_suffix isIndent).subset (List.mem_of_mem_drop (mem_of_mem_trim hc))
  generalize hname : trim ((l.dropWhile isIndent).drop 7) = name at h hsub ⊢
  by_cases hhash : '#' ∈ name
  · obtain ⟨a, b, rfl, ha⟩ := List.eq_append_cons_of_mem hhash
    have hfind : find '#' (a ++ '#' :: b) 0 = some a.length := by
      have := @find_eq_some '#' a b ha []
      simpa using this
    rw [hfind] at h ⊢
    dsimp only at h ⊢
    have hsubstr : substr (a ++ '#' :: b) 0 a.length = a := by simp [substr]
    rw [hsubstr] at h ⊢
    exact ⟨h, trimmed_trim a, fun hc => ha (mem_of_mem_trim hc),
      fun hc => hl (hsub _ (List.mem_append_left _ (mem_of_mem_trim hc)))⟩
  · have hfind : find '#' name 0 = none := find_eq_none (by rwa [List.drop_zero])
    rw [hfind] at h ⊢
    exact ⟨h, hname ▸ trimmed_trim _, hhash, fun hc => hl (hsub _ hc)⟩

/-- The line with a name is read as that name. -/
theorem kernel_ifs_key {n : Text} (h : Name n) : kernel_ifs_from_line (kernelKey ++ n) = n := by
  have hdrop : (kernelKey ++ n).dropWhile isIndent = kernelKey ++ n := rfl
  have hk : KernelLine (kernelKey ++ n) := ⟨n, hdrop.symm⟩
  have hfind : find '#' n 0 = none := find_eq_none (by rw [List.drop_zero]; exact h.hash)
  have hrest : (kernelKey ++ n).drop 7 = n := rfl
  rw [kernel_ifs_of_kernelLine hk, hdrop, hrest, trim_of_trimmed h.trimmed, hfind]

/-- **What is read is a name.** -/
theorem name_of_activeName {text n : Text} (h : activeName text = some n) : Name n := by
  have hmem := List.mem_of_find?_eq_some h
  obtain ⟨l, hl, rfl⟩ := List.mem_map.mp hmem
  refine name_of_kernel_ifs (newline_notMem_of_mem_lines hl) ?_
  simpa using List.find?_some h

/-! ### Rewriting -/

/-- **The intended text**: every `kernel=` line that is no comment is replaced, or one is added. -/
def replaced (n : Text) (ls : List Text) : List Text :=
  ls.map (fun l => if KernelLine l then kernelKey ++ n else l) ++ if ∃ l ∈ ls, KernelLine l then []
    else [kernelKey ++ n]

theorem newline_notMem_key {n : Text} (h : Name n) : '\n' ∉ kernelKey ++ n := by
  rw [List.mem_append, not_or]
  exact ⟨by decide, h.newline⟩

/-- Both ways of rewriting give lines again. -/
theorem newline_notMem_map {n : Text} (h : Name n) {p : Text → Prop} [DecidablePred p] {c : Prop}
    [Decidable c] {ls : List Text} (hls : ∀ l ∈ ls, '\n' ∉ l) :
    ∀ l ∈ ls.map (fun l => if p l then kernelKey ++ n else l) ++
      (if c then [] else [kernelKey ++ n]), '\n' ∉ l := by
  intro l hl
  rcases List.mem_append.mp hl with hl | hl
  · obtain ⟨m, hm, rfl⟩ := List.mem_map.mp hl
    split
    case isTrue => exact newline_notMem_key h
    case isFalse => exact hls m hm
  · split at hl
    case isTrue => exact absurd hl List.not_mem_nil
    case isFalse =>
        rw [List.mem_singleton.mp hl]
        exact newline_notMem_key h

theorem rewrite_eq_replaced {n : Text} {ls : List Text}
    (h : ∀ l ∈ ls, KernelLine l → kernel_ifs_from_line l ≠ []) : rewrite n ls = replaced n ls := by
  have hiff : ∀ l ∈ ls, kernel_ifs_from_line l ≠ [] ↔ KernelLine l :=
    fun l hl => ⟨kernelLine_of_ne_nil, h l hl⟩
  have hmap : ls.map (fun l => if kernel_ifs_from_line l ≠ [] then kernelKey ++ n else l) =
      ls.map (fun l => if KernelLine l then kernelKey ++ n else l) :=
    List.map_congr_left fun l hl => if_congr (hiff l hl) rfl rfl
  have hany : (ls.any (kernel_ifs_from_line · ≠ [])) = true ↔ ∃ l ∈ ls, KernelLine l := by
    rw [List.any_eq_true]
    constructor
    · rintro ⟨l, hl, hk⟩
      exact ⟨l, hl, (hiff l hl).mp (of_decide_eq_true hk)⟩
    · rintro ⟨l, hl, hk⟩
      exact ⟨l, hl, decide_eq_true ((hiff l hl).mpr hk)⟩
  rw [rewrite, replaced, hmap, if_congr hany rfl rfl]

/-- If the intended text starts the rewritten one, every `kernel=` line had a name. -/
theorem kernel_ifs_ne_nil_of_prefix {n : Text} (hn : Name n) {ls : List Text}
    (h : replaced n ls <+: rewrite n ls) :
      ∀ l ∈ ls, KernelLine l → kernel_ifs_from_line l ≠ [] := by
  have hmap : ls.map (fun l => if KernelLine l then kernelKey ++ n else l) =
      ls.map (fun l => if kernel_ifs_from_line l ≠ [] then kernelKey ++ n else l) := by
    obtain ⟨t, ht⟩ := h
    have := congrArg (List.take ls.length) ht
    simpa [replaced, rewrite, List.append_assoc] using this
  intro l hl hk hnil
  have heq := List.map_inj_left.mp hmap l hl
  rw [if_pos hk, if_neg (not_not_intro hnil)] at heq
  rw [← heq, kernel_ifs_key hn] at hnil
  exact hn.ne_nil hnil

theorem replaced_ne_nil (n : Text) (ls : List Text) : replaced n ls ≠ [] := by
  intro h
  rw [replaced, List.append_eq_nil_iff, List.map_eq_nil_iff] at h
  obtain ⟨rfl, h⟩ := h
  exact absurd h (by simp)

/-- The intended text is a single `kernel=` line if the old one was, or had no lines. -/
theorem replaced_eq_singleton_iff {n : Text} {ls : List Text} :
    replaced n ls = [kernelKey ++ n] ↔ ls.length ≤ 1 ∧ ∀ l ∈ ls, KernelLine l := by
  rcases ls with _ | ⟨l, ls⟩
  · simp [replaced]
  · by_cases hk : KernelLine l
    · have hex : ∃ m ∈ l :: ls, KernelLine m := ⟨l, List.mem_cons_self, hk⟩
      rw [replaced, if_pos hex]
      constructor
      · intro h
        have hnil : ls = [] := by simpa [hk] using h
        subst hnil
        simpa using hk
      · rintro ⟨hlen, -⟩
        have hnil : ls = [] := by simpa using hlen
        subst hnil
        simp [hk]
    · constructor
      · intro h
        have hlen := congrArg List.length h
        unfold replaced at h hlen
        split at hlen
        case isTrue hex =>
            rw [if_pos hex] at h
            obtain ⟨m, hm, hmk⟩ := hex
            have hnil : ls = [] := by simpa using hlen
            subst hnil
            rw [List.mem_singleton.mp hm] at hmk
            exact absurd hmk hk
        case isFalse => simp at hlen
      · rintro ⟨-, h⟩
        exact absurd (h l List.mem_cons_self) hk

/-- **The new name is read** from the rewritten text. -/
theorem activeName_rewrite {n : Text} (hn : Name n) {ls : List Text} (hls : ∀ l ∈ ls, '\n' ∉ l) :
    activeName (render (rewrite n ls)) = some n := by
  have hvals : ∀ l ∈ rewrite n ls, kernel_ifs_from_line l = [] ∨ kernel_ifs_from_line l = n := by
    intro l hl
    rcases List.mem_append.mp hl with hl | hl
    · obtain ⟨m, hm, rfl⟩ := List.mem_map.mp hl
      split
      case isTrue => exact .inr (kernel_ifs_key hn)
      case isFalse hnil => exact .inl (not_not.mp hnil)
    · split at hl
      case isTrue => exact absurd hl List.not_mem_nil
      case isFalse =>
          rw [List.mem_singleton.mp hl]
          exact .inr (kernel_ifs_key hn)
  have hkey : kernelKey ++ n ∈ rewrite n ls := by
    unfold rewrite
    split
    case isTrue hany =>
        obtain ⟨l, hl, hk⟩ := List.any_eq_true.mp hany
        exact List.mem_append_left _ (List.mem_map.mpr ⟨l, hl, if_pos (of_decide_eq_true hk)⟩)
    case isFalse => exact List.mem_append_right _ (List.mem_singleton.mpr rfl)
  have hlines : lines (render (rewrite n ls)) = rewrite n ls :=
    lines_render (newline_notMem_map hn hls)
  rw [activeName, hlines]
  cases hfind : ((rewrite n ls).map kernel_ifs_from_line).find? (· ≠ []) with
  | none =>
      have := List.find?_eq_none.mp hfind n (List.mem_map.mpr ⟨_, hkey, kernel_ifs_key hn⟩)
      exact absurd hn.ne_nil (by simpa using this)
  | some m =>
      obtain ⟨l, hl, hlm⟩ := List.mem_map.mp (List.mem_of_find?_eq_some hfind)
      have hm : m ≠ [] := by simpa using List.find?_some hfind
      rw [← hlm] at hm ⊢
      rw [(hvals l hl).resolve_left hm]

/-! ### Calls -/

/-- The copy after `backup`: a file that was opened is cut even if there is nothing to copy. -/
def backupText (o : Switch) (d : Disk) (text : Text) : Option Text :=
  if o.bak.opens then some (if o.bakSrc then text.take o.bak.stored else []) else d .config_bak

/-- The text that is written back from a copy. -/
def restoredText (o : Restore) (bak : Option Text) (text : Text) : Text :=
  match bak with
  | none => text
  | some b => if o.seen ∧ o.dst.opens then (if o.src then b.take o.dst.stored else []) else text

/-- The text under the temporary name. -/
def newText (o : Switch) (n text : Text) : Text :=
  (render (rewrite n (if o.src then lines text else []))).take o.tmp.stored

theorem result_backup {o : Switch} {d : Disk} {text : Text} (h : d .config = some text) :
    ((backup o).result d).2 = Function.update d .config_bak (backupText o d text) := by
  unfold backup backupText
  cases o.bakSrc <;> cases o.bak.opens <;> simp [h]

theorem result_restore {o : Restore} {d : Disk} {text : Text} (h : d .config = some text) :
    ((restore_config_bak o).result d).2 .config = some (restoredText o (d .config_bak) text) := by
  unfold restore_config_bak restoredText
  cases hbak : d .config_bak with
  | none => simp [hbak, h]
  | some b =>
      cases hseen : o.seen with
      | false => simp [hbak, h]
      | true => cases hsrc : o.src <;> cases hdst : o.dst.opens <;> simp [hbak, h]

theorem result_giveUp {o : Switch} {d : Disk} {text : Text} (h : d .config = some text) :
    ((giveUp o).result d).1 = false ∧
      ((giveUp o).result d).2 .config = some (restoredText o.restore (d .config_bak) text) := by
  unfold giveUp
  refine ⟨by simp, ?_⟩
  cases o.remove with
  | false => simpa using result_restore h
  | true =>
      have h' : Function.update d .config_tmp none .config = some text := by simpa using h
      simpa using @result_restore o.restore _ _ h'

/-- **A call**: whether it succeeds, and what `config.txt` is then. -/
theorem result_set_active_ifs {o : Switch} {d : Disk} {n text : Text} (h : d .config = some text) :
    ((set_active_ifs o n).result d).1 = (o.tmp.opens && o.fsync && o.rename) ∧
      ((set_active_ifs o n).result d).2 .config =
        some (if o.tmp.opens then if o.fsync && o.rename then newText o n text
          else restoredText o.restore (backupText o d text) text else text) := by
  have hbackup : (backup o).result d = ((), Function.update d .config_bak (backupText o d text)) :=
    Prod.ext rfl (result_backup h)
  have hnew : (render (rewrite n ((if o.src = true then some (lines text) else none).getD []))).take
      o.tmp.stored = newText o n text := by
    rw [newText]
    cases o.src <;> rfl
  unfold set_active_ifs
  rw [Steps.result_bind, hbackup]
  cases htmp : o.tmp.opens with
  | false => simp [h]
  | true =>
      -- with the new text under the temporary name, both failures leave the same
      have hgive := @result_giveUp o
        (Function.update (Function.update d .config_bak (backupText o d text)) .config_tmp
        (some (newText o n text))) text (by simpa using h)
      rw [Function.update_of_ne (by decide), Function.update_self] at hgive
      cases hfsync : o.fsync with
      | false => simpa [htmp, hfsync, h, hnew] using hgive
      | true =>
          cases hrename : o.rename with
          | false => simpa [htmp, hfsync, hrename, h, hnew] using hgive
          | true => simp [h, hnew]

/-! ### The whole -/

/-- What is promised of a call: on success the intended text, from which the new name is read, on
failure the old one. -/
structure Switches (o : Switch) (n text : Text) (d : Disk) : Prop where
  success : ((set_active_ifs o n).result d).1 = true →
    ((set_active_ifs o n).result d).2 .config = some (render (replaced n (lines text))) ∧
      ((get_active_ifs true).result ((set_active_ifs o n).result d).2).1 = some n
  failure : ((set_active_ifs o n).result d).1 = false →
    ((set_active_ifs o n).result d).2 .config = some text

/-- **When it is kept.**  If the rename is reached: the name is one, all of the new text was stored,
and either `config.txt` could be read and each of its `kernel=` lines has a name, or it is at most
one line, a `kernel=` line. If it is not, after the temporary file was opened: the copy is not
found, or `config.txt` cannot be opened for it, or what is copied back is the old text. -/
structure Kept (o : Switch) (n text : Text) (d : Disk) : Prop where
  switched : o.tmp.opens = true → o.fsync = true → o.rename = true →
    Name n ∧ (render (replaced n (lines text))).length ≤ o.tmp.stored ∧
      (if o.src then ∀ l ∈ lines text, KernelLine l → kernel_ifs_from_line l ≠ []
        else (lines text).length ≤ 1 ∧ ∀ l ∈ lines text, KernelLine l)
  restored : o.tmp.opens = true → ¬ (o.fsync = true ∧ o.rename = true) →
    ∀ b, backupText o d text = some b →
    o.restore.seen = true → o.restore.dst.opens = true →
      (if o.restore.src then b.take o.restore.dst.stored else []) = text

theorem newText_eq_iff {o : Switch} {n text : Text} :
    newText o n text = render (replaced n (lines text)) ∧ activeName (newText o n text) = some n ↔
      Name n ∧ (render (replaced n (lines text))).length ≤ o.tmp.stored ∧
        (if o.src then ∀ l ∈ lines text, KernelLine l → kernel_ifs_from_line l ≠ []
          else (lines text).length ≤ 1 ∧ ∀ l ∈ lines text, KernelLine l) := by
  have hls : ∀ l ∈ lines text, '\n' ∉ l := fun l hl => newline_notMem_of_mem_lines hl
  have hls' : ∀ l ∈ (if o.src then lines text else []), '\n' ∉ l := by
    intro l hl
    split at hl
    case isTrue => exact hls l hl
    case isFalse => exact absurd hl List.not_mem_nil
  -- the intended lines are the rewritten ones
  suffices hsame : Name n →
      replaced n (lines text) <+: rewrite n (if o.src then lines text else []) →
      (rewrite n (if o.src then lines text else []) = replaced n (lines text) ∧
        (if o.src then ∀ l ∈ lines text, KernelLine l → kernel_ifs_from_line l ≠ []
          else (lines text).length ≤ 1 ∧ ∀ l ∈ lines text, KernelLine l)) by
    constructor
    · rintro ⟨htext, hname⟩
      have hn := name_of_activeName hname
      have hpre : replaced n (lines text) <+: rewrite n (if o.src then lines text else []) := by
        refine prefix_of_render_prefix (newline_notMem_map hn hls) (newline_notMem_map hn hls') ?_
        rw [← htext]
        exact List.take_prefix _ _
      obtain ⟨heq, hcond⟩ := hsame hn hpre
      refine ⟨hn, ?_, hcond⟩
      rw [newText, heq] at htext
      have hlen := congrArg List.length htext
      rw [List.length_take] at hlen
      exact hlen ▸ Nat.min_le_left _ _
    · rintro ⟨hn, hlen, hcond⟩
      have heq : rewrite n (if o.src then lines text else []) = replaced n (lines text) := by
        split at hcond
        case isTrue hsrc =>
            rw [if_pos hsrc]
            exact rewrite_eq_replaced hcond
        case isFalse hsrc =>
            rw [if_neg hsrc, replaced_eq_singleton_iff.mpr hcond]
            rfl
      have htext : newText o n text = render (replaced n (lines text)) := by
        rw [newText, heq, List.take_of_length_le hlen]
      refine ⟨htext, ?_⟩
      rw [htext, ← heq]
      exact activeName_rewrite hn hls'
  intro hn hpre
  split at hpre
  case isTrue hsrc =>
      have hcond := kernel_ifs_ne_nil_of_prefix hn hpre
      rw [if_pos hsrc, if_pos hsrc]
      exact ⟨rewrite_eq_replaced hcond, hcond⟩
  case isFalse hsrc =>
      have hone : rewrite n [] = [kernelKey ++ n] := rfl
      have hsingle : replaced n (lines text) = [kernelKey ++ n] := by
        rw [hone] at hpre
        exact hpre.eq_of_length_le (by
          have := List.length_pos_iff.mpr (replaced_ne_nil n (lines text))
          simpa using Nat.succ_le_of_lt this)
      rw [if_neg hsrc, if_neg hsrc, hone, hsingle]
      exact ⟨rfl, replaced_eq_singleton_iff.mp hsingle⟩

theorem restoredText_eq_iff {o : Restore} {bak : Option Text} {text : Text} :
    restoredText o bak text = text ↔ ∀ b, bak = some b → o.seen = true → o.dst.opens = true →
      (if o.src then b.take o.dst.stored else []) = text := by
  cases bak with
  | none => simp [restoredText]
  | some b =>
      unfold restoredText
      dsimp only
      by_cases h : o.seen = true ∧ o.dst.opens = true
      · rw [if_pos h]
        constructor
        · intro heq c hc _ _
          rw [← Option.some.inj hc]
          exact heq
        · exact fun hall => hall b rfl h.1 h.2
      · rw [if_neg h]
        exact ⟨fun _ _ _ hseen hopens => absurd ⟨hseen, hopens⟩ h, fun _ => rfl⟩

/-- **Switching the image**: for every text of `config.txt`, every name and every outcome of the
calls, a call that succeeds leaves the intended text and one that fails leaves the old one if and
only if `Kept` holds. -/
theorem set_active_iff (o : Switch) (n : Text) {d : Disk} {text : Text}
    (h : d .config = some text) :
    Switches o n text d ↔ Kept o n text d := by
  obtain ⟨hval, hconfig⟩ := @result_set_active_ifs o d n text h
  have hactive : ((get_active_ifs true).result ((set_active_ifs o n).result d).2).1 =
      activeName (if o.tmp.opens then if o.fsync && o.rename then newText o n text
        else restoredText o.restore (backupText o d text) text else text) := by
    unfold get_active_ifs
    rw [Steps.result_bind, result_ifstream, if_pos rfl, hconfig]
    rfl
  have hiff : Switches o n text d ↔
      (o.tmp.opens = true → o.fsync = true → o.rename = true →
        newText o n text = render (replaced n (lines text)) ∧
        activeName (newText o n text) = some n) ∧
      (o.tmp.opens = true → ¬ (o.fsync = true ∧ o.rename = true) →
        restoredText o.restore (backupText o d text) text = text) := by
    constructor
    · intro hs
      refine ⟨fun ht hf hr => ?_, fun ht hnot => ?_⟩
      · have := hs.success (by rw [hval, ht, hf, hr]; rfl)
        rw [hconfig, hactive, if_pos ht, hf, hr] at this
        exact ⟨Option.some.inj this.1, this.2⟩
      · have hfail : (o.fsync && o.rename) = false := by simpa using hnot
        have := hs.failure (by rw [hval, ht, Bool.true_and, hfail])
        rw [hconfig, if_pos ht, hfail] at this
        exact Option.some.inj this
    · rintro ⟨hswitched, hrestored⟩
      refine ⟨fun htrue => ?_, fun hfalse => ?_⟩
      · rw [hval, Bool.and_eq_true, Bool.and_eq_true] at htrue
        obtain ⟨⟨ht, hf⟩, hr⟩ := htrue
        obtain ⟨htext, hname⟩ := hswitched ht hf hr
        rw [hconfig, hactive, if_pos ht, hf, hr]
        exact ⟨congrArg some htext, hname⟩
      · rw [hconfig]
        split
        case isTrue ht =>
            rw [hval, ht, Bool.true_and] at hfalse
            rw [hfalse]
            exact congrArg some (hrestored ht (by simpa using hfalse))
        case isFalse => rfl
  rw [hiff, newText_eq_iff, restoredText_eq_iff]
  exact ⟨fun hk => ⟨hk.1, hk.2⟩, fun hk => ⟨hk.switched, hk.restored⟩⟩

/-- A card with nothing but a `config.txt` for the first slot. -/
def freshDisk : Disk := fun p => if p = .config then some "kernel=ifs-rpi5.bin\n".toList else none

/-- All calls succeed, with room for `stored` bytes under the temporary name. -/
def switchTo (stored : ℕ) : Switch :=
  ⟨true, ⟨true, 1000⟩, true, ⟨true, stored⟩, true, true, true, ⟨true, true, ⟨true, 1000⟩⟩⟩

theorem set_active_iff_room :
    Switches (switchTo 1000) IFS_B "kernel=ifs-rpi5.bin\n".toList freshDisk :=
  (set_active_iff (switchTo 1000) IFS_B rfl).mpr
    ⟨fun _ _ _ => ⟨⟨by decide, trimmed_of_forall
        (isBlank_eq_false_of_all
          (by decide)), by decide, by decide⟩, by decide +kernel, by decide +kernel⟩,
      fun _ h => absurd ⟨rfl, rfl⟩ h⟩

/-- A volume with room for three bytes more: the call succeeds, and `config.txt` is `ker`. -/
theorem full_volume_cuts_config :
    ((set_active_ifs (switchTo 3) IFS_B).result freshDisk).1 = true ∧
      ((set_active_ifs (switchTo 3) IFS_B).result freshDisk).2 .config = some "ker".toList ∧
      ¬ Switches (switchTo 3) IFS_B "kernel=ifs-rpi5.bin\n".toList freshDisk := by
  refine ⟨by decide +kernel, by decide +kernel, fun h => ?_⟩
  have htext := (h.success (by decide +kernel)).1
  exact absurd htext (by decide +kernel)

end Ota
