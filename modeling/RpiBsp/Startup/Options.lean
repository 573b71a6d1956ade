import RpiBsp.Startup.Getopt

/-!
# Startup — options

What the three passes over the command line of the startup program have to do with each other.
`main` takes most options, and writes into some arguments; `init_system_private` takes `-F` for
itself, and then `-M`, `-r` and others.

* `passes_agree` — every pass ends, and sees the options that the first one saw;
* `cpu_flags` — **main**: a flag of a processor is as the last `-F` that names it says, whatever was
there before.
-/

namespace Startup.Getopt

open Support Startup.Reserve

/-! ### The passes -/

/-- `COMMON_OPTIONS_STRING "W:"`. -/
def OPTIONS : Text := "Q:E:X:Uu:e:ACc:D:F:f:I:i:K:M:N:o:P:R:S:Tvr:j:ZHW:".toList

/-- Where `-R` writes a NUL: at the comma behind the name. -/
def nameEnd (arg : Text) : Option ℕ :=
  let size := getsize arg
  let align := match afterComma size.2 with
    | some rest => getsize rest
    | none => (0, size.2)
  match afterComma align.2 with
  | some name => (name.idxOf? ',').map (arg.length - name.length + ·)
  | none => none

/-- Where `main` writes a NUL first: `-c` at the colon, `getsubopt` at the comma, `-R` behind the
name. -/
def written (opt : Char) (arg : Text) : Option ℕ :=
  if opt = 'c' then arg.idxOf? ':'
  else if opt = 'X' ∨ opt = 'E' ∨ opt = 'e' then arg.idxOf? ','
  else if opt = 'R' then nameEnd arg
  else none

/-! ### The flags -/

/-- One `-F`, of the flags that are switched on and those that are switched off. -/
def flagStep (f : BitVec 32 × BitVec 32) (x : Char × Text) : BitVec 32 × BitVec 32 :=
  if x.1 = 'F' then
    match x.2 with
    | '~' :: rest =>
      let flags := BitVec.ofNat 32 (strtopaddr 0 rest).1
      (f.1 &&& ~~~flags, f.2 ||| flags)
    | arg =>
      let flags := BitVec.ofNat 32 (strtopaddr 0 arg).1
      (f.1 ||| flags, f.2 &&& ~~~flags)
  else f

/-- `flags_on` and `flags_off`. -/
def flagsOf (items : List (Char × Text)) : BitVec 32 × BitVec 32 := items.foldl flagStep (0, 0)

/-- The flags of a processor are switched. -/
def switch (f : BitVec 32 × BitVec 32) (flags : BitVec 32) : BitVec 32 := (flags ||| f.1) &&& ~~~f.2

/-- `init_system_private`, as far as it works on the flags of the processors: those of the first
one, those of all after `smp_hook_rtn`, which sets the others up. -/
def cpuFlags (smp_hook_rtn : List (BitVec 32) → List (BitVec 32)) (items : List (Char × Text))
    (cpuinfo : List (BitVec 32)) :
    List (BitVec 32) :=
  (smp_hook_rtn (cpuinfo.modify 0 (switch (flagsOf items)))).map (switch (flagsOf items))

/-- Whether `-F` switches flag `b` on or off, if it names it. -/
def naming (b : ℕ) (x : Char × Text) : Option Bool :=
  if x.1 = 'F' then
    match x.2 with
    | '~' :: rest => if (strtopaddr 0 rest).1.testBit b then some false else none
    | arg => if (strtopaddr 0 arg).1.testBit b then some true else none
  else none

/-- What the last `-F` that names flag `b` says. -/
def lastNaming (b : ℕ) (items : List (Char × Text)) : Option Bool :=
  items.foldl (fun said x => (naming b x).or said) none

theorem flagStep_bit {b : ℕ} (hb : b < 32) (f : BitVec 32 × BitVec 32) (x : Char × Text) :
    ((flagStep f x).1.getLsbD b, (flagStep f x).2.getLsbD b) =
      match naming b x with
      | some on => (on, !on)
      | none => (f.1.getLsbD b, f.2.getLsbD b) := by
  rw [flagStep, naming]
  by_cases hF : x.1 = 'F'
  · rw [if_pos hF, if_pos hF]
    split
    · simp only [BitVec.getLsbD_and, BitVec.getLsbD_or, BitVec.getLsbD_not, BitVec.getLsbD_ofNat,
        hb, decide_true, Bool.true_and]
      split_ifs with hbit
      · simp [hbit]
      · simp [hbit]
    · simp only [BitVec.getLsbD_and, BitVec.getLsbD_or, BitVec.getLsbD_not, BitVec.getLsbD_ofNat,
        hb, decide_true, Bool.true_and]
      split_ifs with hbit
      · simp [hbit]
      · simp [hbit]
  · rw [if_neg hF, if_neg hF]

/-- The two sets of flags say the same as the last `-F`. -/
theorem foldl_flagStep_bit {b : ℕ} (hb : b < 32) (items : List (Char × Text)) :
    ∀ (f : BitVec 32 × BitVec 32) (said : Option Bool),
      (f.1.getLsbD b, f.2.getLsbD b) = (decide (said = some true), decide (said = some false)) →
      ((items.foldl flagStep f).1.getLsbD b, (items.foldl flagStep f).2.getLsbD b) =
        (decide (items.foldl (fun said x => (naming b x).or said) said = some true),
          decide (items.foldl (fun said x => (naming b x).or said) said = some false)) := by
  induction items with
  | nil => exact fun _ _ h => h
  | cons x items ih =>
      intro f said h
      rw [List.foldl_cons, List.foldl_cons]
      refine ih _ _ ?_
      rw [flagStep_bit hb]
      cases naming b x with
      | none => exact h
      | some on => cases on <;> rfl

theorem switch_bit {b : ℕ} (hb : b < 32) (items : List (Char × Text)) (flags : BitVec 32) :
    (switch (flagsOf items) flags).getLsbD b = (lastNaming b items).getD (flags.getLsbD b) := by
  have h := foldl_flagStep_bit hb items (0, 0) none (by simp)
  obtain ⟨hon, hoff⟩ := Prod.mk.inj h
  rw [switch, BitVec.getLsbD_and, BitVec.getLsbD_or, BitVec.getLsbD_not, flagsOf, hon, hoff,
    lastNaming]
  generalize items.foldl (fun said x => (naming b x).or said) none = said
  cases said with
  | none => simp [hb]
  | some on => cases on <;> simp [hb]

/-! ### What is written -/

/-- An option whose argument keeps its first character. -/
def FirstKept (x : Char × Text) : Prop :=
  (x.1 = 'c' → x.2.head? ≠ some ':') ∧ (x.1 = 'X' ∨ x.1 = 'E' ∨ x.1 = 'e' → x.2.head? ≠ some ',')

instance (x : Char × Text) : Decidable (FirstKept x) := inferInstanceAs (Decidable (_ ∧ _))

theorem strtopaddr_suffix (base : ℕ) (s : Text) : (strtopaddr base s).2 <:+ s := by
  rw [strtopaddr]
  dsimp only
  split_ifs
  all_goals
    first
      | exact List.suffix_rfl
      | exact (List.dropWhile_suffix _).trans (List.drop_suffix _ _)
      | exact List.dropWhile_suffix _

theorem getsize_suffix (s : Text) : (getsize s).2 <:+ s := by
  have h := strtopaddr_suffix 0 s
  rw [getsize]
  generalize strtopaddr 0 s = v at h
  obtain ⟨n, t⟩ := v
  cases t with
  | nil => exact h
  | cons c t =>
      have ht : t <:+ s := (List.suffix_cons c t).trans h
      dsimp only
      split_ifs
      all_goals first | exact ht | exact h

theorem afterComma_lt {s t : Text} (h : afterComma s = some t) : t.length < s.length := by
  rw [afterComma.eq_def] at h
  split at h
  · cases h
    exact Nat.lt_succ_self _
  · cases h

/-- The name of `-R` is not in front. -/
theorem nameEnd_ne_zero (arg : Text) : nameEnd arg ≠ some 0 := by
  have hsize := (getsize_suffix arg).length_le
  have halign : (match afterComma (getsize arg).2 with
      | some rest => getsize rest
      | none => (0, (getsize arg).2)).2.length ≤ arg.length := by
    cases hcomma : afterComma (getsize arg).2 with
    | none => exact hsize
    | some rest =>
        exact ((getsize_suffix rest).length_le.trans (afterComma_lt hcomma).le).trans hsize
  intro h
  rw [nameEnd] at h
  generalize (match afterComma (getsize arg).2 with
    | some rest => getsize rest
    | none => (0, (getsize arg).2)).2 = align at h halign
  cases hname : afterComma align with
  | none =>
      rw [hname] at h
      cases h
  | some name =>
      rw [hname] at h
      have hlt := (afterComma_lt hname).trans_le halign
      obtain ⟨j, -, hj⟩ := Option.map_eq_some_iff.mp h
      omega

theorem head_of_idxOf {c : Char} {arg : Text} (h : arg.idxOf? c = some 0) : arg.head? = some c := by
  cases arg with
  | nil => cases h
  | cons d arg =>
      rw [List.idxOf?_cons] at h
      split_ifs at h with hd
      · rw [List.head?_cons, beq_iff_eq.mp hd]
      · obtain ⟨j, -, hj⟩ := Option.map_eq_some_iff.mp h
        cases hj

theorem FirstKept.kept {x : Char × Text} (h : FirstKept x) : Kept written x := by
  intro _ hzero
  rw [written] at hzero
  split_ifs at hzero with hc hX hR
  · exact h.1 hc (head_of_idxOf hzero)
  · exact h.2 hX (head_of_idxOf hzero)
  · exact nameEnd_ne_zero x.2 hzero

theorem written_inArguments : InArguments written OPTIONS where
  letter := by
    intro c arg h
    rw [written] at h
    split_ifs at h with hc hX hR
    · rw [hc]
      decide
    · rcases hX with rfl | rfl | rfl <;> decide
    · rw [hR]
      decide
    · exact absurd rfl h
  unknown := fun _ => rfl

/-! ### The passes agree -/

/-- **The passes agree**: the first one ends and sees what the command line says, and those behind
it, with no list of options of their own, see the same options, in the same order, with what is left
of their arguments. -/
theorem passes_agree (argv : List Text) (hkept : ∀ x ∈ options OPTIONS (argv.drop 1), FirstKept x)
    {s : Statics} (hind : s.optind = 0) :
    ∃ argv' s₁ n, (∀ rounds ≥ n, scan written (some OPTIONS) rounds argv s =
        some (options OPTIONS (argv.drop 1), argv', s₁)) ∧
      ∀ s₂ : Statics, s₂.optind = 0 → s₂.opts_str = s₁.opts_str →
        ∃ items s₃ n, s₃.opts_str = s₁.opts_str ∧
          (∀ rounds ≥ n, scan unwritten none rounds argv' s₂ = some (items, argv', s₃)) ∧
          List.Forall₂ (Cut written OPTIONS) (options OPTIONS (argv.drop 1)) items := by
  obtain ⟨s₁, n, hstr, hscan⟩ := scan_options (o := some OPTIONS) written_inArguments argv hind rfl
  refine ⟨_, s₁, n, hscan, fun s₂ hind₂ hstr₂ => ?_⟩
  have hdrop : (argv.take 1 ++ cutWords written OPTIONS (argv.drop 1)).drop 1 =
      cutWords written OPTIONS (argv.drop 1) := by
    cases argv <;> rfl
  have htake : (argv.take 1 ++ cutWords written OPTIONS (argv.drop 1)).take 1 = argv.take 1 := by
    cases argv <;> rfl
  obtain ⟨s₃, n₂, hstr₃, hscan₂⟩ := scan_options (o := none) (unwritten_inArguments _)
    (argv.take 1 ++ cutWords written OPTIONS (argv.drop 1)) hind₂ (hstr₂.trans hstr)
  rw [hdrop, htake, cutWords_unwritten] at hscan₂
  refine ⟨_, s₃, n₂, hstr₃.trans hstr.symm, hscan₂, ?_⟩
  exact rescan_options written_inArguments _ fun x hx => (hkept x hx).kept

/-! ### The flags of the processors -/

/-- An option that is seen again says the same of a flag. -/
theorem Cut.naming_eq {x y : Char × Text} (h : Cut written OPTIONS x y) (b : ℕ) :
    naming b y = naming b x := by
  obtain ⟨hopt, harg⟩ := h
  rw [naming, naming, hopt]
  by_cases hF : x.1 = 'F'
  · have hkind : kind OPTIONS x.1 = some true := by
      rw [hF]
      decide
    have hunwritten : written x.1 x.2 = none := by
      rw [hF]
      rfl
    have hsame : y.2 = x.2 := by rw [harg hkind, cutText, hunwritten]
    rw [hsame]
  · rw [if_neg hF, if_neg hF]

theorem lastNaming_eq {items items' : List (Char × Text)}
    (h : List.Forall₂ (Cut written OPTIONS) items items') (b : ℕ) :
    lastNaming b items' = lastNaming b items := by
  unfold lastNaming
  generalize (none : Option Bool) = said
  induction h generalizing said with
  | nil => rfl
  | cons hxy _ ih =>
      rw [List.foldl_cons, List.foldl_cons, hxy.naming_eq]
      exact ih _

/-- **The flags of the processors**: behind `init_system_private` a flag that some `-F` names is, on
every processor, as the last of them says, and any other is as `smp_hook_rtn` left it. -/
theorem cpu_flags (argv : List Text) (hkept : ∀ x ∈ options OPTIONS (argv.drop 1), FirstKept x)
    {s : Statics} (hind : s.optind = 0) :
    ∃ argv' s₁ n, (∀ rounds ≥ n, scan written (some OPTIONS) rounds argv s =
        some (options OPTIONS (argv.drop 1), argv', s₁)) ∧
      ∃ items s₂ n, (∀ rounds ≥ n, scan unwritten none rounds argv' { s₁ with optind := 0 } =
          some (items, argv', s₂)) ∧
        ∀ (smp_hook_rtn : List (BitVec 32) → List (BitVec 32)) (cpuinfo : List (BitVec 32)) (i : ℕ)
          (flags : BitVec 32), (cpuFlags smp_hook_rtn items cpuinfo)[i]? = some flags →
            ∃ before, (smp_hook_rtn (cpuinfo.modify 0 (switch (flagsOf items))))[i]? = some before ∧
              ∀ b < 32, flags.getLsbD b = (lastNaming b (options OPTIONS (argv.drop 1))).getD
                (before.getLsbD b) := by
  obtain ⟨argv', s₁, n, hscan, hnext⟩ := passes_agree argv hkept hind
  obtain ⟨items, s₂, n₂, -, hscan₂, hcut⟩ := hnext { s₁ with optind := 0 } rfl rfl
  refine ⟨argv', s₁, n, hscan, items, s₂, n₂, hscan₂, fun smp_hook_rtn cpuinfo i flags hflags => ?_⟩
  rw [cpuFlags, List.getElem?_map, Option.map_eq_some_iff] at hflags
  obtain ⟨before, hbefore, rfl⟩ := hflags
  refine ⟨before, hbefore, fun b hb => ?_⟩
  rw [switch_bit hb, lastNaming_eq hcut]

/-- The command line `startup -cbig:0xf0 -F3 -vF ~2`. -/
def twoFlags : List Text :=
  ["startup".toList, "-cbig:0xf0".toList, "-F3".toList, "-vF".toList, "~2".toList]

/-- Of the two flags that are switched on, one is switched off again. -/
theorem cpu_flags_twice :
    ∃ argv' s₁ n, (∀ rounds ≥ n, scan written (some OPTIONS) rounds twoFlags {} =
        some ([('c', "big:0xf0".toList), ('F', "3".toList), ('v', "vF".toList), ('F', "~2".toList)],
        argv', s₁)) ∧
      ∃ items s₂ n, (∀ rounds ≥ n, scan unwritten none rounds argv' { s₁ with optind := 0 } =
          some (items, argv', s₂)) ∧
        ∀ flags, (cpuFlags id items [6])[0]? = some flags → flags.getLsbD 0 = true ∧
        flags.getLsbD 1 = false := by
  have hitems : options OPTIONS (twoFlags.drop 1) =
      [('c', "big:0xf0".toList), ('F', "3".toList), ('v', "vF".toList), ('F', "~2".toList)] := by
    decide +kernel
  have hon : lastNaming 0 (options OPTIONS (twoFlags.drop 1)) = some true := by decide +kernel
  have hoff : lastNaming 1 (options OPTIONS (twoFlags.drop 1)) = some false := by decide +kernel
  obtain ⟨argv', s₁, n, hscan, items, s₂, n₂, hscan₂, hflags⟩ :=
    cpu_flags twoFlags (by decide +kernel) (s := {}) rfl
  rw [hitems] at hscan
  refine ⟨argv', s₁, n, hscan, items, s₂, n₂, hscan₂, fun flags h => ?_⟩
  obtain ⟨before, -, hbit⟩ := hflags id [6] 0 flags h
  have hzero := hbit 0 (by decide)
  have hone := hbit 1 (by decide)
  rw [hon] at hzero
  rw [hoff] at hone
  exact ⟨hzero, hone⟩

/-- A cluster without a name is cut to nothing: it takes the next word for its argument the next
time. -/
example : options OPTIONS (cutWords written OPTIONS ["-c:1".toList, "-F4".toList]) =
      [('c', "-F4".toList)] := by
  decide +kernel

end Startup.Getopt
