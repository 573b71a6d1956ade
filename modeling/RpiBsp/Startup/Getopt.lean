import Mathlib.Data.List.Forall2
import RpiBsp.Startup.Ram.Reserve

/-!
# Startup — getopt

The startup program goes through its command line three times, with a `getopt` of its own: `main`
with the list of options, and `init_system_private` twice with the list that `getopt` kept.  In
between, `main` has written to the command line: some options end a part of their argument by a NUL.

* `options` — what a command line says, word for word;
* `scan_options` — **main**: what the loops over `getopt` see is this, whatever earlier loops left
in its variables;
* `rescan_options` — and later loops see the same, with some arguments cut, if no cut argument was
cut to nothing;
* `getopt_reads` — options that are written on a command line are read again.
-/

namespace Startup.Getopt

open Support

/-! ### `getopt` -/

/-- A place in a word of the command line. -/
abbrev Ptr := ℕ × ℕ

/-- The text at a place. -/
def textAt (argv : List Text) (p : Ptr) : Text := (argv.getD p.1 []).drop p.2

/-- The variables of `getopt`; they stay from call to call. -/
structure Statics where
  cp : Ptr := (0, 0)
  last_optind : ℕ := 0
  opts_str : Text := []
  optind : ℕ := 0
  optarg : Ptr := (0, 0)
  deriving Repr

/-- The loop over the list of options, which ends at the letter or at the end. -/
def findOpt (c : Char) : Text → Text
  | [] => []
  | o :: opts => if o = ':' then findOpt c opts else if c = o then o :: opts else findOpt c opts

/-- The second half of `getopt`, where `cp` is in the word at hand: `none` is `-1`. -/
def readOption (argv : List Text) (opts : Text) (s : Statics) : Option Char × Statics :=
  match textAt argv s.cp with
  | [] => (some '?', { s with optarg := s.cp, optind := s.optind + 1 })
  | c :: more =>
    if c = '-' then (none, { s with optind := s.optind + 1 })
    else
      let s := { s with optarg := s.cp, optind := s.optind + 1 }
      match findOpt c opts with
      | [] => (some '?', s)
      | opt :: opts =>
        let s := { s with cp := (s.cp.1, s.cp.2 + 1) }
        if more ≠ [] then
          if opts.head? = some ':' then (some opt, { s with optarg := s.cp })
          else (some opt, { s with optind := s.optind - 1 })
        else if opts.head? = some ':' then
          if s.optind < argv.length then
            (some opt, { s with optarg := (s.optind, 0), optind := s.optind + 1 })
          else (some '?', s)
        else (some opt, s)

/-- `getopt`; a list of options that is not given is the last one that was. -/
def getopt (argv : List Text) (opts : Option Text) (s : Statics) : Option Char × Statics :=
  let s := { s with opts_str := opts.getD s.opts_str }
  let s := if s.optind = 0 then { s with optind := 1, last_optind := 0 } else s
  if s.optind ≥ argv.length then (none, s)
  else if s.last_optind ≠ s.optind then
    let s := { s with cp := (s.optind, 1), last_optind := s.optind }
    if (textAt argv (s.optind, 0)).head? ≠ some '-' ∨ textAt argv s.cp = [] then (none, s)
    else readOption argv s.opts_str s
  else readOption argv s.opts_str s

/-! ### A loop over `getopt` -/

/-- A NUL is written so many characters behind a place. -/
def poke (argv : List Text) (p : Ptr) : Option ℕ → List Text
  | none => argv
  | some j => argv.modify p.1 (List.take (p.2 + j))

/-- `while((opt = getopt(..)) != -1)`, of so many rounds at most: the options with their arguments,
and the command line and the variables behind it.  `written` is where the body of the loop writes a
NUL in an argument. -/
def scan (written : Char → Text → Option ℕ) (opts : Option Text) :
    ℕ → List Text → Statics → Option (List (Char × Text) × List Text × Statics)
  | 0, _, _ => none
  | rounds + 1, argv, s =>
    match getopt argv opts s with
    | (none, s) => some ([], argv, s)
    | (some opt, s) =>
      let arg := textAt argv s.optarg
      (scan written opts rounds (poke argv s.optarg (written opt arg)) s).map fun r =>
        ((opt, arg) :: r.1, r.2)

/-! ### What a command line says -/

/-- Whether an option takes an argument, if it is one. -/
def kind (opts : Text) (c : Char) : Option Bool :=
  match findOpt c opts with
  | [] => none
  | _ :: opts => some (opts.head? = some ':')

/-- What comes behind the options of a word. -/
inductive After where
  | next
  | stop
  | argument (c : Char)
  deriving DecidableEq, Repr

/-- The options of one word: a `-` among them ends all, and an unknown letter the word. -/
def cluster (opts : Text) : Text → List (Char × Text) × After
  | [] => ([], .next)
  | c :: cs =>
    if c = '-' then ([], .stop)
    else
      match kind opts c with
      | none => ([('?', c :: cs)], .next)
      | some true => if cs = [] then ([], .argument c) else ([(c, cs)], .next)
      | some false => ((c, c :: cs) :: (cluster opts cs).1, (cluster opts cs).2)

/-- The options of the words, up to the first that is none. -/
def options (opts : Text) : List Text → List (Char × Text)
  | ('-' :: c :: cs) :: ws =>
    (cluster opts (c :: cs)).1 ++
      match (cluster opts (c :: cs)).2, ws with
      | .next, ws => options opts ws
      | .stop, _ => []
      | .argument c, [] => [('?', [c])]
      | .argument c, w :: ws => (c, w) :: options opts ws
  | _ => []

/-- What is left of an argument. -/
def cutText (written : Char → Text → Option ℕ) (c : Char) (arg : Text) : Text :=
  match written c arg with
  | none => arg
  | some j => arg.take j

/-- What is left of a word. -/
def cutCluster (written : Char → Text → Option ℕ) (opts : Text) : Text → Text
  | [] => []
  | c :: cs =>
    if c = '-' then c :: cs
    else
      match kind opts c with
      | none => c :: cs
      | some true => c :: cutText written c cs
      | some false => c :: cutCluster written opts cs

/-- What is left of a command line. -/
def cutWords (written : Char → Text → Option ℕ) (opts : Text) : List Text → List Text
  | ('-' :: c :: cs) :: ws =>
    ('-' :: cutCluster written opts (c :: cs)) ::
      match (cluster opts (c :: cs)).2, ws with
      | .next, ws => cutWords written opts ws
      | .stop, ws => ws
      | .argument _, [] => []
      | .argument c, w :: ws => cutText written c w :: cutWords written opts ws
  | ws => ws

/-! ### Places -/

section Places

variable {pre ws : List Text} {w front cs : Text}

theorem textAt_word (k : ℕ) : textAt (pre ++ w :: ws) (pre.length, k) = w.drop k := by
  simp [textAt, List.getD_eq_getElem?_getD]

theorem textAt_next (w' : Text) : textAt (pre ++ w :: w' :: ws) (pre.length + 1, 0) = w' := by
  simp [textAt, List.getD_eq_getElem?_getD]

theorem modify_word (f : Text → Text) (w : Text) (ws : List Text) : ∀ pre : List Text,
    (pre ++ w :: ws).modify pre.length f = pre ++ f w :: ws
  | [] => rfl
  | v :: pre => congrArg (v :: ·) (modify_word f w ws pre)

theorem poke_word (written : Char → Text → Option ℕ) (c : Char) :
    poke (pre ++ (front ++ cs) :: ws) (pre.length, front.length) (written c cs) =
      pre ++ (front ++ cutText written c cs) :: ws := by
  rw [cutText]
  cases written c cs with
  | none => rfl
  | some j =>
      rw [poke, modify_word, List.take_length_add_append]

theorem poke_next (written : Char → Text → Option ℕ) (c : Char) (w' : Text) :
    poke (pre ++ w :: w' :: ws) (pre.length + 1, 0) (written c w') = pre ++ w ::
      cutText written c w' :: ws := by
  rw [cutText]
  cases written c w' with
  | none => rfl
  | some j =>
      have h := modify_word (List.take (0 + j)) w' ws (pre ++ [w])
      rw [List.append_cons] at h
      simpa [poke] using h

end Places

/-! ### The calls -/

/-- `getopt` is about to look at word `n`. -/
structure AtWord (n : ℕ) (s : Statics) : Prop where
  pos : 0 < n
  optind : s.optind = n
  last : s.last_optind < n

/-- It is in word `n`, at character `k`. -/
structure Within (n k : ℕ) (s : Statics) : Prop where
  pos : 0 < n
  optind : s.optind = n
  last : s.last_optind = n
  cp : s.cp = (n, k)

theorem findOpt_head {c o : Char} {opts rest : Text} (h : findOpt c opts = o :: rest) : o = c := by
  induction opts with
  | nil => cases h
  | cons o' opts ih =>
      rw [findOpt] at h
      split_ifs at h with hcolon heq
      · exact ih h
      · cases h
        exact heq.symm
      · exact ih h

section Calls

variable {o : Option Text} {opts : Text} {s : Statics} (hopts : o.getD s.opts_str = opts)

include hopts

theorem getopt_end {argv : List Text} (h : AtWord argv.length s) :
    getopt argv o s = (none, { s with opts_str := opts }) := by
  have hne : s.optind ≠ 0 := h.optind ▸ h.pos.ne'
  unfold getopt
  dsimp only
  rw [hopts, if_neg hne, if_pos h.optind.ge]

variable {pre ws : List Text} {w : Text}

theorem getopt_operand (h : AtWord pre.length s) (hw : w.head? ≠ some '-' ∨ w.drop 1 = []) :
    getopt (pre ++ w :: ws) o s =
      (none, { s with opts_str := opts, cp := (pre.length, 1), last_optind := pre.length }) := by
  have hlt : ¬ s.optind ≥ (pre ++ w :: ws).length := by
    rw [h.optind, List.length_append, List.length_cons]
    omega
  have hpos : s.optind ≠ 0 := h.optind ▸ h.pos.ne'
  unfold getopt
  dsimp only
  rw [hopts, if_neg hpos, if_neg hlt, h.optind, if_pos h.last.ne, textAt_word, textAt_word,
    List.drop_zero, if_pos hw]

theorem getopt_dash (h : AtWord pre.length s) (hw : w.head? = some '-') (hne : w.drop 1 ≠ []) :
    getopt (pre ++ w :: ws) o s = readOption (pre ++ w :: ws) opts
      { s with opts_str := opts, cp := (pre.length, 1), last_optind := pre.length } := by
  have hlt : ¬ s.optind ≥ (pre ++ w :: ws).length := by
    rw [h.optind, List.length_append, List.length_cons]
    omega
  have hpos : s.optind ≠ 0 := h.optind ▸ h.pos.ne'
  unfold getopt
  dsimp only
  rw [hopts, if_neg hpos, if_neg hlt, h.optind, if_pos h.last.ne, textAt_word, textAt_word,
    List.drop_zero, if_neg (not_or.mpr ⟨not_not.mpr hw, hne⟩)]

theorem getopt_within {k : ℕ} (h : Within pre.length k s) :
    getopt (pre ++ w :: ws) o s = readOption (pre ++ w :: ws) opts { s with opts_str := opts } := by
  have hlt : ¬ s.optind ≥ (pre ++ w :: ws).length := by
    rw [h.optind, List.length_append, List.length_cons]
    omega
  have hpos : s.optind ≠ 0 := h.optind ▸ h.pos.ne'
  unfold getopt
  dsimp only
  rw [hopts, if_neg hpos, if_neg hlt, h.optind, if_neg (not_not.mpr h.last)]

end Calls

/-! ### The loop -/

/-- The loop comes to an end, with these options, this command line, and `opts` kept. -/
def Ends (written : Char → Text → Option ℕ) (o : Option Text) (opts : Text) (argv : List Text)
    (s : Statics) (items : List (Char × Text)) (argv' : List Text) : Prop :=
  ∃ s' n, s'.opts_str = opts ∧ ∀ rounds ≥ n, scan written o rounds argv s = some (items, argv', s')

section Loop

variable {written : Char → Text → Option ℕ} {o : Option Text} {opts : Text} {argv argv' : List Text}
    {s s' : Statics}
  {items : List (Char × Text)}

theorem Ends.stop (h : getopt argv o s = (none, s')) (hopts : s'.opts_str = opts) :
    Ends written o opts argv s [] argv := by
  refine ⟨s', 1, hopts, fun rounds hge => ?_⟩
  obtain ⟨rounds, rfl⟩ : ∃ k, rounds = k + 1 := ⟨rounds - 1, by omega⟩
  rw [scan, h]

theorem Ends.more {c : Char} {arg : Text} (h : getopt argv o s = (some c, s'))
    (harg : textAt argv s'.optarg = arg)
    (hrest : Ends written o opts (poke argv s'.optarg (written c arg)) s' items argv') :
    Ends written o opts argv s ((c, arg) :: items) argv' := by
  obtain ⟨s'', n, hopts, hscan⟩ := hrest
  refine ⟨s'', n + 1, hopts, fun rounds hge => ?_⟩
  obtain ⟨rounds, rfl⟩ : ∃ k, rounds = k + 1 := ⟨rounds - 1, by omega⟩
  rw [scan, h]
  dsimp only
  rw [harg, hscan rounds (by omega)]
  rfl

/-- Only what the next call does matters. -/
theorem Ends.congr (hcall : getopt argv o s = getopt argv o s')
    (h : Ends written o opts argv s' items argv') :
    Ends written o opts argv s items argv' := by
  obtain ⟨s'', n, hopts, hscan⟩ := h
  refine ⟨s'', n + 1, hopts, fun rounds hge => ?_⟩
  rw [← hscan rounds (by omega)]
  obtain ⟨rounds, rfl⟩ : ∃ k, rounds = k + 1 := ⟨rounds - 1, by omega⟩
  rw [scan, scan, hcall]

end Loop

/-- A NUL is written only in arguments. -/
structure InArguments (written : Char → Text → Option ℕ) (opts : Text) : Prop where
  letter : ∀ c arg, written c arg ≠ none → kind opts c = some true
  unknown : ∀ arg, written '?' arg = none

/-- What the words behind a word say. -/
def behind (opts : Text) : After → List Text → List (Char × Text)
  | .next, ws => options opts ws
  | .stop, _ => []
  | .argument c, [] => [('?', [c])]
  | .argument c, w :: ws => (c, w) :: options opts ws

def cutBehind (written : Char → Text → Option ℕ) (opts : Text) : After → List Text → List Text
  | .next, ws => cutWords written opts ws
  | .stop, ws => ws
  | .argument _, [] => []
  | .argument c, w :: ws => cutText written c w :: cutWords written opts ws

theorem options_dash (opts : Text) (c : Char) (cs : Text) (ws : List Text) :
    options opts (('-' :: c :: cs) :: ws) = (cluster opts (c :: cs)).1 ++
      behind opts (cluster opts (c :: cs)).2 ws := by
  cases h : (cluster opts (c :: cs)).2 with
  | next => rw [options.eq_1 _ _ _ _ h, behind]
  | stop => rw [options.eq_2 _ _ _ _ h, behind]
  | argument c' =>
      cases ws with
      | nil => rw [options.eq_3 _ _ _ _ h, behind]
      | cons w ws => rw [options.eq_4 _ _ _ _ _ _ h, behind]

theorem cutWords_dash (written : Char → Text → Option ℕ) (opts : Text) (c : Char) (cs : Text)
    (ws : List Text) :
    cutWords written opts (('-' :: c :: cs) :: ws) =
      ('-' :: cutCluster written opts (c :: cs)) ::
        cutBehind written opts (cluster opts (c :: cs)).2 ws := by
  cases h : (cluster opts (c :: cs)).2 with
  | next => rw [cutWords.eq_1 _ _ _ _ _ h, cutBehind]
  | stop => rw [cutWords.eq_2 _ _ _ _ _ h, cutBehind]
  | argument c' =>
      cases ws with
      | nil => rw [cutWords.eq_3 _ _ _ _ _ h, cutBehind]
      | cons w ws => rw [cutWords.eq_4 _ _ _ _ _ _ _ h, cutBehind]

section Scan

variable {written : Char → Text → Option ℕ} {o : Option Text} {opts : Text}

/-- What is to be shown of the words from some word on. -/
def Goal (written : Char → Text → Option ℕ) (o : Option Text) (opts : Text)
    (ws : List Text) : Prop :=
  ∀ (pre : List Text) (s : Statics), AtWord pre.length s → o.getD s.opts_str = opts →
    Ends written o opts (pre ++ ws) s (options opts ws) (pre ++ cutWords written opts ws)

/-- The word is left behind. -/
theorem Goal.leave {ws pre : List Text} (h : Goal written o opts ws) (w : Text) {s : Statics}
    (hs : AtWord (pre.length + 1) s) (hopts : o.getD s.opts_str = opts) :
    Ends written o opts (pre ++ w :: ws) s (options opts ws)
      (pre ++ w :: cutWords written opts ws) := by
  have hlength : (pre ++ [w]).length = pre.length + 1 := by
    rw [List.length_append, List.length_singleton]
  have hgoal := h (pre ++ [w]) s (hlength ▸ hs) hopts
  rwa [List.append_assoc, List.append_assoc] at hgoal

theorem cutText_nil (c : Char) : cutText written c [] = [] := by
  rw [cutText]
  cases written c [] with
  | none => rfl
  | some j => exact List.take_nil

/-- **One word**: the induction is on what is left of it. -/
theorem cluster_ends (hw : InArguments written opts) (ho : o.getD opts = opts) {pre ws : List Text}
    (hws : Goal written o opts ws) (hbehind : ∀ w ws', ws = w :: ws' → Goal written o opts ws')
    (cs : Text) :
    ∀ (front : Text) (s : Statics), cs ≠ [] → Within pre.length front.length s → s.opts_str = opts →
      Ends written o opts (pre ++ (front ++ cs) :: ws) s
          ((cluster opts cs).1 ++ behind opts (cluster opts cs).2 ws)
        (pre ++ (front ++ cutCluster written opts cs) :: cutBehind written opts (cluster opts cs).2
          ws) := by
  induction cs with
  | nil => exact fun _ _ hne => absurd rfl hne
  | cons c cs ih =>
      intro front s _ hin hstr
      have htext : textAt (pre ++ (front ++ c :: cs) :: ws) s.cp = c :: cs := by
        rw [hin.cp, textAt_word, List.drop_left]
      have hcall : getopt (pre ++ (front ++ c :: cs) :: ws) o s =
          readOption (pre ++ (front ++ c :: cs) :: ws) opts { s with opts_str := opts } :=
        getopt_within (by rw [hstr, ho]) hin
      rw [readOption] at hcall
      dsimp only at hcall
      rw [htext] at hcall
      dsimp only at hcall
      by_cases hdash : c = '-'
      · rw [if_pos hdash] at hcall
        rw [cluster, if_pos hdash, cutCluster, if_pos hdash]
        exact .stop hcall rfl
      rw [if_neg hdash] at hcall
      rw [cluster, if_neg hdash, cutCluster, if_neg hdash]
      cases hfind : findOpt c opts with
      | nil =>
          have hkind : kind opts c = none := by rw [kind, hfind]
          rw [hfind] at hcall
          rw [hkind]
          refine .more hcall htext ?_
          rw [hw.unknown]
          exact hws.leave _ ⟨Nat.succ_pos _, congrArg (· + 1) hin.optind,
            hin.last ▸ Nat.lt_succ_self _⟩ ho
      | cons opt rest =>
          obtain rfl := findOpt_head hfind
          have hkind : kind opts opt = some (decide (rest.head? = some ':')) := by rw [kind, hfind]
          rw [hfind] at hcall
          dsimp only at hcall
          have hcp : (s.cp.1, s.cp.2 + 1) = (pre.length, (front ++ [opt]).length) := by
            rw [hin.cp, List.length_append, List.length_singleton]
          have hword : front ++ opt :: cs = (front ++ [opt]) ++ cs := List.append_cons _ _ _
          have hleft : ∀ cp arg,
              AtWord (pre.length + 1) ⟨cp, s.last_optind, opts, s.optind + 1, arg⟩ :=
            fun _ _ => ⟨Nat.succ_pos _, congrArg (· + 1) hin.optind, hin.last ▸ Nat.lt_succ_self _⟩
          by_cases htakes : rest.head? = some ':'
          · rw [decide_eq_true htakes] at hkind
            rw [hkind]
            by_cases hcs : cs = []
            · subst hcs
              rw [if_neg (not_not.mpr rfl), if_pos htakes] at hcall
              dsimp only
              rw [if_pos rfl, cutText_nil]
              cases ws with
              | nil =>
                  rw [if_neg (by simp [hin.optind])] at hcall
                  refine .more hcall htext ?_
                  rw [hw.unknown]
                  exact hws.leave _ (hleft _ _) ho
              | cons w ws =>
                  rw [if_pos (by simp [hin.optind]), hin.optind] at hcall
                  refine .more hcall (textAt_next w) ?_
                  rw [poke_next]
                  have hat : AtWord ((pre ++ [front ++ [opt]]).length + 1)
                      { s with opts_str := opts, cp := (s.cp.1, s.cp.2 + 1),
                               optarg := (pre.length + 1, 0), optind := pre.length + 1 + 1 } :=
                    ⟨Nat.succ_pos _, by rw [List.length_append, List.length_singleton],
                      by rw [List.length_append, List.length_singleton, hin.last]; omega⟩
                  have hgoal := (hbehind w ws rfl).leave (cutText written opt w) hat ho
                  rwa [List.append_assoc, List.append_assoc] at hgoal
            · rw [if_pos hcs, if_pos htakes, hcp] at hcall
              dsimp only
              rw [if_neg hcs]
              rw [hword] at hcall ⊢
              refine .more hcall ?_ ?_
              · rw [textAt_word, List.drop_left]
              · rw [poke_word, List.append_cons front opt (cutText written opt cs)]
                exact hws.leave _ (hleft _ _) ho
          · rw [decide_eq_false htakes] at hkind
            have hnone : ∀ arg, written opt arg = none := by
              intro arg
              by_contra hsome
              rw [hw.letter opt arg hsome] at hkind
              cases hkind
            rw [hkind]
            dsimp only
            by_cases hcs : cs = []
            · subst hcs
              rw [if_neg (not_not.mpr rfl), if_neg htakes] at hcall
              refine .more hcall htext ?_
              rw [hnone]
              exact hws.leave _ (hleft _ _) ho
            · rw [if_pos hcs, if_neg htakes, hcp] at hcall
              refine .more hcall htext ?_
              rw [hnone, poke, hword, List.append_cons front opt (cutCluster written opts cs),
                hin.optind]
              exact ih (front ++ [opt]) ⟨_, s.last_optind, opts, pre.length, s.cp⟩ hcs
                ⟨hin.pos, rfl, hin.last, rfl⟩ rfl

/-- **What the loop sees from some word on.** -/
theorem goal (hw : InArguments written opts) (ho : o.getD opts = opts) (ws : List Text) :
    Goal written o opts ws := by
  induction hn : ws.length using Nat.strong_induction_on generalizing ws with
  | _ n ih =>
      subst hn
      intro pre s hs hopts
      cases ws with
      | nil =>
          have hstop := getopt_end hopts hs
          rw [← List.append_nil pre] at hstop
          exact .stop hstop rfl
      | cons w ws =>
          by_cases hdash : w.head? = some '-' ∧ w.drop 1 ≠ []
          · obtain ⟨c, cs, rfl⟩ : ∃ c cs, w = '-' :: c :: cs := by
              cases w with
              | nil => exact absurd hdash.1 (by simp)
              | cons d w =>
                  cases w with
                  | nil => exact absurd rfl hdash.2
                  | cons c cs => exact ⟨c, cs, by simpa using hdash.1⟩
            rw [options_dash, cutWords_dash]
            have hin : Within pre.length 1
                ⟨(pre.length, 1), pre.length, opts, s.optind, s.optarg⟩ :=
              ⟨hs.pos, hs.optind, rfl, rfl⟩
            refine .congr ((getopt_dash hopts hs hdash.1 hdash.2).trans (getopt_within ho hin).symm)
              ?_
            refine cluster_ends hw ho (ih _ (by simp) ws rfl) (fun w ws' hws => ?_) (c :: cs) ['-']
              _ (List.cons_ne_nil _ _) hin rfl
            subst hws
            exact ih _ (by simp only [List.length_cons]; omega) ws' rfl
          · have hoperand : w.head? ≠ some '-' ∨ w.drop 1 = [] := by tauto
            have hstop : getopt (pre ++ w :: ws) o s =
                (none, { s with opts_str := opts, cp := (pre.length, 1), last_optind :=
                  pre.length }) :=
              getopt_operand hopts hs hoperand
            have hnone : options opts (w :: ws) = [] ∧
                cutWords written opts (w :: ws) = w :: ws := by
              rw [options.eq_def, cutWords.eq_def]
              split
              case h_1 heq =>
                cases heq
                exact absurd ⟨rfl, List.cons_ne_nil _ _⟩ hdash
              case h_2 => exact ⟨rfl, rfl⟩
            rw [hnone.1, hnone.2]
            exact .stop hstop rfl

/-- **The loop over `getopt`**: with `optind` 0, and whatever else the variables hold, it ends, and
sees what the command line says. -/
theorem scan_options (hw : InArguments written opts) (argv : List Text) {s : Statics}
    (hind : s.optind = 0) (hopts : o.getD s.opts_str = opts) :
    Ends written o opts argv s (options opts (argv.drop 1))
      (argv.take 1 ++ cutWords written opts (argv.drop 1)) := by
  have ho : o.getD opts = opts := by
    cases o with
    | none => rfl
    | some o => exact hopts
  have hcall : getopt argv o s = getopt argv o { s with optind := 1, last_optind := 0 } := by
    simp only [getopt, hind, if_pos, one_ne_zero, if_false]
  refine .congr hcall ?_
  cases argv with
  | nil =>
      have hstop : getopt [] o { s with optind := 1, last_optind := 0 } =
          (none, { s with optind := 1, last_optind := 0, opts_str := opts }) := by
        simp only [getopt, one_ne_zero, if_false, List.length_nil, ge_iff_le, hopts]
        rw [if_pos (Nat.zero_le 1)]
      exact .stop hstop rfl
  | cons name ws => exact goal hw ho ws [name] _ ⟨one_pos, rfl, one_pos⟩ hopts

end Scan

/-! ### The next loop -/

section Rescan

variable {written : Char → Text → Option ℕ} {opts : Text}

/-- An option that was seen, and as it is seen the next time. -/
def Cut (written : Char → Text → Option ℕ) (opts : Text) (x y : Char × Text) : Prop :=
  y.1 = x.1 ∧ (kind opts x.1 = some true → y.2 = cutText written x.1 x.2)

/-- No argument is cut to nothing. -/
def Kept (written : Char → Text → Option ℕ) (x : Char × Text) : Prop :=
  x.2 ≠ [] → written x.1 x.2 ≠ some 0

theorem cutCluster_cons (c : Char) (cs : Text) :
    ∃ cs', cutCluster written opts (c :: cs) = c :: cs' := by
  rw [cutCluster]
  split_ifs
  · exact ⟨_, rfl⟩
  · cases kind opts c with
    | none => exact ⟨_, rfl⟩
    | some takes => cases takes <;> exact ⟨_, rfl⟩

theorem cutText_ne_nil {c : Char} {arg : Text} (h : Kept written (c, arg)) (hne : arg ≠ []) :
    cutText written c arg ≠ [] := by
  rw [cutText]
  cases hw : written c arg with
  | none => exact hne
  | some j =>
      have hj : j ≠ 0 := fun hzero => h hne (by rw [← hzero]; exact hw)
      intro hnil
      rcases List.take_eq_nil_iff.mp hnil with hzero | hnil
      · exact hj hzero
      · exact hne hnil

/-- A word that was cut. -/
theorem cluster_cut (hw : InArguments written opts) (cs : Text)
    (hkept : ∀ x ∈ (cluster opts cs).1, Kept written x) :
    List.Forall₂ (Cut written opts) (cluster opts cs).1
        (cluster opts (cutCluster written opts cs)).1 ∧
      (cluster opts (cutCluster written opts cs)).2 = (cluster opts cs).2 := by
  induction cs with
  | nil => exact ⟨.nil, rfl⟩
  | cons c cs ih =>
      rw [cluster] at hkept
      rw [cutCluster, cluster]
      by_cases hdash : c = '-'
      · rw [if_pos hdash, if_pos hdash, cluster, if_pos hdash]
        exact ⟨.nil, rfl⟩
      rw [if_neg hdash] at hkept
      rw [if_neg hdash, if_neg hdash]
      cases hkind : kind opts c with
      | none =>
          dsimp only
          rw [cluster, if_neg hdash, hkind]
          exact ⟨.cons ⟨rfl, fun _ => by rw [cutText, hw.unknown]⟩ .nil, rfl⟩
      | some takes =>
          rw [hkind] at hkept
          cases takes with
          | true =>
              dsimp only at hkept ⊢
              rw [cluster, if_neg hdash, hkind]
              dsimp only
              by_cases hcs : cs = []
              · rw [hcs, cutText_nil, if_pos rfl]
                exact ⟨.nil, rfl⟩
              · rw [if_neg hcs] at hkept ⊢
                have hkeep := hkept (c, cs) List.mem_cons_self
                rw [if_neg (cutText_ne_nil hkeep hcs)]
                exact ⟨.cons ⟨rfl, fun _ => rfl⟩ .nil, rfl⟩
          | false =>
              dsimp only at hkept ⊢
              rw [cluster, if_neg hdash, hkind]
              obtain ⟨hitems, hafter⟩ := ih fun x hx => hkept x (List.mem_cons_of_mem _ hx)
              refine ⟨.cons ⟨rfl, fun htrue => ?_⟩ hitems, hafter⟩
              rw [hkind] at htrue
              cases htrue

/-- **The next loop sees the same options**, with the arguments that are left. -/
theorem rescan_options (hw : InArguments written opts) (ws : List Text)
    (hkept : ∀ x ∈ options opts ws, Kept written x) :
    List.Forall₂ (Cut written opts) (options opts ws)
      (options opts (cutWords written opts ws)) := by
  induction hn : ws.length using Nat.strong_induction_on generalizing ws with
  | _ n ih =>
      subst hn
      by_cases hdash : ∃ c cs ws', ws = ('-' :: c :: cs) :: ws'
      · obtain ⟨c, cs, ws', rfl⟩ := hdash
        rw [options_dash] at hkept
        rw [cutWords_dash, options_dash]
        obtain ⟨hitems, hafter⟩ :=
          cluster_cut hw (c :: cs) fun x hx => hkept x (List.mem_append_left _ hx)
        obtain ⟨cs', hcs'⟩ : ∃ cs', cutCluster written opts (c :: cs) = c :: cs' :=
          cutCluster_cons c cs
        rw [hcs'] at hitems hafter ⊢
        rw [options_dash, hafter]
        refine List.rel_append hitems ?_
        have hbehind : ∀ x ∈ behind opts (cluster opts (c :: cs)).2 ws', Kept written x :=
          fun x hx => hkept x (List.mem_append_right _ hx)
        generalize (cluster opts (c :: cs)).2 = after at hbehind ⊢
        cases after with
        | next => exact ih _ (by simp) ws' hbehind rfl
        | stop => exact .nil
        | argument c =>
            cases ws' with
            | nil => exact .cons ⟨rfl, fun _ => by rw [cutText, hw.unknown]⟩ .nil
            | cons w ws' =>
                exact .cons ⟨rfl, fun _ => rfl⟩
                  (ih _ (by simp only [List.length_cons]; omega) ws'
                    (fun x hx => hbehind x (List.mem_cons_of_mem _ hx)) rfl)
      · have hnone : options opts ws = [] ∧ cutWords written opts ws = ws := by
          rw [options.eq_def, cutWords.eq_def]
          split
          case h_1 => exact absurd ⟨_, _, _, rfl⟩ hdash
          case h_2 => exact ⟨rfl, rfl⟩
        rw [hnone.2, hnone.1]
        exact .nil

end Rescan

/-! ### A loop that writes nothing -/

/-- No argument is written to where it is only read. -/
def unwritten (_ : Char) (_ : Text) : Option ℕ := none

theorem unwritten_inArguments (opts : Text) : InArguments unwritten opts :=
  ⟨fun _ _ h => absurd rfl h, fun _ => rfl⟩

theorem cutCluster_unwritten (opts cs : Text) : cutCluster unwritten opts cs = cs := by
  induction cs with
  | nil => rfl
  | cons c cs ih =>
      rw [cutCluster]
      split_ifs
      · rfl
      · cases kind opts c with
        | none => rfl
        | some takes =>
            cases takes with
            | true => rfl
            | false => exact congrArg (c :: ·) ih

theorem cutWords_unwritten (opts : Text) (ws : List Text) : cutWords unwritten opts ws = ws := by
  induction hn : ws.length using Nat.strong_induction_on generalizing ws with
  | _ n ih =>
      subst hn
      by_cases hdash : ∃ c cs ws', ws = ('-' :: c :: cs) :: ws'
      · obtain ⟨c, cs, ws', rfl⟩ := hdash
        rw [cutWords_dash, cutCluster_unwritten]
        congr 1
        cases (cluster opts (c :: cs)).2 with
        | next => exact ih _ (by simp) ws' rfl
        | stop => rfl
        | argument c =>
            cases ws' with
            | nil => rfl
            | cons w ws' =>
                exact congrArg (w :: ·) (ih _ (by simp only [List.length_cons]; omega) ws' rfl)
      · rw [cutWords.eq_def]
        split
        case h_1 => exact absurd ⟨_, _, _, rfl⟩ hdash
        case h_2 => rfl

/-- A word of options, as it can be written: some flags, and behind them at most one option with an
argument, which is in the same word or in the next one. -/
inductive Arg where
  | flags (front : Text)
  | separate (front : Text) (c : Char) (arg : Text)
  | attached (front : Text) (c : Char) (arg : Text)

/-- What `getopt` says of flags: the argument of an option without one is the rest of the word, from
the option on. -/
def flagItems : Text → Text → List (Char × Text)
  | [], _ => []
  | c :: cs, rest => (c, c :: (cs ++ rest)) :: flagItems cs rest

/-- All of them are options without an argument. -/
def Flags (opts front : Text) : Prop := ∀ c ∈ front, c ≠ '-' ∧ kind opts c = some false

theorem Flags.tail {opts cs : Text} {c : Char} (h : Flags opts (c :: cs)) : Flags opts cs :=
  fun d hd => h d (List.mem_cons_of_mem _ hd)

/-- Flags are read one by one, and then the rest of the word is. -/
theorem cluster_flags {opts : Text} (rest : Text) : ∀ {front : Text}, Flags opts front →
    cluster opts (front ++ rest) =
      (flagItems front rest ++ (cluster opts rest).1, (cluster opts rest).2)
  | [], _ => rfl
  | c :: cs, h => by
      obtain ⟨hdash, hkind⟩ := h c List.mem_cons_self
      rw [List.cons_append, cluster, if_neg hdash, hkind]
      dsimp only
      rw [cluster_flags rest h.tail, flagItems, List.cons_append]

namespace Arg

def words : Arg → List Text
  | flags front => ['-' :: front]
  | separate front c arg => ['-' :: (front ++ [c]), arg]
  | attached front c arg => ['-' :: (front ++ c :: arg)]

/-- The options that `getopt` sees, with their arguments. -/
def items : Arg → List (Char × Text)
  | flags front => flagItems front []
  | separate front c arg => flagItems front [c] ++ [(c, arg)]
  | attached front c arg => flagItems front (c :: arg) ++ [(c, arg)]

def Valid (opts : Text) : Arg → Prop
  | flags front => front ≠ [] ∧ Flags opts front
  | separate front c _ => Flags opts front ∧ c ≠ '-' ∧ kind opts c = some true
  | attached front c arg => Flags opts front ∧ c ≠ '-' ∧ kind opts c = some true ∧ arg ≠ []

end Arg

/-- No option is behind the others. -/
def Operands (ws : List Text) : Prop :=
  ∀ w, ws.head? = some w → w.head? ≠ some '-' ∨ w.drop 1 = [] ∨ w.drop 1 = ['-']

theorem options_operands {opts : Text} {ws : List Text} (h : Operands ws) :
    options opts ws = [] := by
  by_cases hdash : ∃ c cs ws', ws = ('-' :: c :: cs) :: ws'
  · obtain ⟨c, cs, ws', rfl⟩ := hdash
    obtain h | h | h := h _ rfl
    · exact absurd rfl h
    · cases h
    · cases h
      rw [options_dash, cluster, if_pos rfl]
      rfl
  · rw [options.eq_def]
    split
    case h_1 => exact absurd ⟨_, _, _, rfl⟩ hdash
    case h_2 => rfl

/-- A word that is not a lone `-`. -/
theorem options_word {opts w : Text} (hne : w ≠ []) (ws : List Text) :
    options opts (('-' :: w) :: ws) = (cluster opts w).1 ++ behind opts (cluster opts w).2 ws := by
  obtain ⟨c, cs, rfl⟩ := List.exists_cons_of_ne_nil hne
  exact options_dash opts c cs ws

theorem options_words {opts : Text} {args : List Arg} (hvalid : ∀ a ∈ args, a.Valid opts)
    (ws : List Text) :
    options opts (args.flatMap Arg.words ++ ws) = args.flatMap Arg.items ++ options opts ws := by
  induction args with
  | nil => rfl
  | cons a args ih =>
      rw [List.forall_mem_cons] at hvalid
      have hrest := ih hvalid.2
      rw [List.flatMap_cons, List.flatMap_cons, List.append_assoc, List.append_assoc, ← hrest]
      cases a with
      | flags front =>
          obtain ⟨hne, hflags⟩ := hvalid.1
          have hcluster := cluster_flags [] hflags
          rw [List.append_nil] at hcluster
          rw [Arg.words, List.singleton_append, options_word hne, hcluster, cluster,
            List.append_nil]
          rfl
      | separate front c arg =>
          obtain ⟨hflags, hdash, hkind⟩ := hvalid.1
          rw [Arg.words, List.cons_append, options_word (by simp), cluster_flags [c] hflags,
            cluster, if_neg hdash, hkind]
          dsimp only
          rw [if_pos rfl, List.append_nil, Arg.items, List.append_assoc]
          rfl
      | attached front c arg =>
          obtain ⟨hflags, hdash, hkind, hne⟩ := hvalid.1
          rw [Arg.words, List.singleton_append, options_word (by simp),
            cluster_flags (c :: arg) hflags, cluster, if_neg hdash, hkind]
          dsimp only
          rw [if_neg hne, Arg.items]
          rfl

/-- **What was written is read**: a loop over `getopt` ends, and sees the options of the command
line up to the first word that is none, whatever an earlier loop left in the variables. -/
theorem getopt_reads (opts name : Text) {args : List Arg} (hvalid : ∀ a ∈ args, a.Valid opts)
    {ws : List Text} (hws : Operands ws) {s : Statics} (hind : s.optind = 0) :
    ∃ s' n, ∀ rounds ≥ n,
      scan unwritten (some opts) rounds (name :: (args.flatMap Arg.words ++ ws)) s =
      some (args.flatMap Arg.items, name :: (args.flatMap Arg.words ++ ws), s') := by
  obtain ⟨s', n, -, hscan⟩ := scan_options (o := some opts) (unwritten_inArguments opts)
    (name :: (args.flatMap Arg.words ++ ws)) hind rfl
  refine ⟨s', n, fun rounds hge => ?_⟩
  rw [hscan rounds hge, cutWords_unwritten, List.drop_one, List.tail_cons, options_words hvalid,
    options_operands hws, List.append_nil]
  rfl

/-- `-vA -o file -vx3 --`, behind a loop that stopped in the middle of a word. -/
theorem getopt_reads_three : ∃ s' n, ∀ rounds ≥ n,
    scan unwritten (some "vAo:x:".toList) rounds
      ["prog".toList, "-vA".toList, "-o".toList, "file".toList, "-vx3".toList, "--".toList]
      ⟨(7, 2), 7, [], 0, (7, 1)⟩ =
    some ([('v', "vA".toList), ('A', ['A']), ('o', "file".toList), ('v', "vx3".toList),
      ('x', ['3'])],
      ["prog".toList, "-vA".toList, "-o".toList, "file".toList, "-vx3".toList, "--".toList],
      s') := by
  have hnone : Flags "vAo:x:".toList [] := fun _ hc => absurd hc List.not_mem_nil
  have hv : 'v' ≠ '-' ∧ kind "vAo:x:".toList 'v' = some false := by decide
  have hA : 'A' ≠ '-' ∧ kind "vAo:x:".toList 'A' = some false := by decide
  have hone : Flags "vAo:x:".toList "v".toList := List.forall_mem_cons.mpr ⟨hv, hnone⟩
  have htwo : Flags "vAo:x:".toList "vA".toList :=
    List.forall_mem_cons.mpr ⟨hv, List.forall_mem_cons.mpr ⟨hA, hnone⟩⟩
  have hvalid : ∀ a ∈
      [Arg.flags "vA".toList, .separate [] 'o' "file".toList, .attached "v".toList 'x' ['3']],
      a.Valid "vAo:x:".toList := by
    intro a ha
    simp only [List.mem_cons, List.not_mem_nil, or_false] at ha
    rcases ha with rfl | rfl | rfl
    · exact ⟨by decide, htwo⟩
    · exact ⟨hnone, by decide, by decide⟩
    · exact ⟨hone, by decide, by decide, by decide⟩
  have hws : Operands ["--".toList] := by
    intro w hw
    cases hw
    decide
  exact getopt_reads "vAo:x:".toList "prog".toList hvalid hws rfl

end Startup.Getopt
