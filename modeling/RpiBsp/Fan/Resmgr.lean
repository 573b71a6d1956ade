import Mathlib.Logic.Function.Basic
import RpiBsp.Support.Strto

/-!
# Fan — the control resource

Clients read the fan's power as a text of at most eleven bytes, and write it.  The text is made anew
at each read, while the offset of a handle is kept from one read to the next.

* `good_read` — a read whose handle is not past the end of the text gives a part of it;
* `inv_step`, `inv_run` — no offset goes past the longest text;
* `reads_run` — **main**: in a run of such reads every reply is a part of the text at that time,
  and twelve reads of a handle give an empty reply at least once.
-/

namespace Fan

open Support

def PWM_CTRL_MAX_VAL : BitVec 32 := 255
def PWM_CTRL_MAX_STRLEN : ℕ := 12

/-- The fan: the power that was asked for, the range of the duty cycle, and its register. -/
structure Dev where
  pwm_ctrl : BitVec 32
  range : BitVec 32
  duty : BitVec 32
deriving DecidableEq, Repr

def pwm_fan_get (dev : Dev) : BitVec 32 := dev.pwm_ctrl

/-- `none` is `EINVAL`. -/
def pwm_fan_set (dev : Dev) (pwm_ctrl : BitVec 32) : Option Dev :=
  if pwm_ctrl > PWM_CTRL_MAX_VAL then none
  else if pwm_ctrl = 0 then
    if dev.pwm_ctrl ≠ 0 then some { dev with pwm_ctrl := 0, duty := 0 } else some dev
  else some { dev with pwm_ctrl := pwm_ctrl, duty := (pwm_ctrl * dev.range) / PWM_CTRL_MAX_VAL }

/-- The fan, the size in the attributes, and the offset of each handle. -/
structure State where
  dev : Dev
  nbytes : ℕ
  offset : ℕ → ℕ

inductive Errno where
  /-- What `iofunc_read_verify`, `iofunc_write_verify` or `resmgr_msgget` came back with. -/
  | other
  | ENOSYS
  | EBADMSG
  | EINVAL
deriving DecidableEq, Repr

/-- A message to read so many bytes. -/
structure ReadMsg where
  verified : Bool
  xtype_none : Bool
  nbytes : ℕ
deriving DecidableEq, Repr

/-- A message to write so many bytes; `data` are those that came with it. -/
structure WriteMsg where
  verified : Bool
  xtype_none : Bool
  nbytes : ℕ
  data : Text
  got : Bool
deriving DecidableEq, Repr

/-- The bytes that are given: so many, from this place in the buffer on. -/
structure Reply where
  start : ℕ
  count : ℕ
  data : Text
deriving DecidableEq, Repr

/-- `"%u\n"`. -/
def text (v : BitVec 32) : Text := Nat.toDigits 10 v.toNat ++ ['\n']

/-- A byte at or behind the buffer with a text; `stack` is what lies behind it. -/
def byteAt (stack : ℕ → Char) (t : Text) (i : ℕ) : Char :=
  if i < PWM_CTRL_MAX_STRLEN then (t.take (PWM_CTRL_MAX_STRLEN - 1))[i]?.getD '\x00' else stack i

def io_read (stack : ℕ → Char) (h : ℕ) (msg : ReadMsg) (s : State) : Except Errno Reply × State :=
  if !msg.verified then (.error .other, s)
  else if !msg.xtype_none then (.error .ENOSYS, s)
  else if msg.nbytes = 0 then (.ok ⟨0, 0, []⟩, s)
  else
    let t := text (pwm_fan_get s.dev)
    let s := { s with nbytes := t.length }
    let nleft := (s.nbytes + 2 ^ 64 - s.offset h % 2 ^ 64) % 2 ^ 64
    let nbytes := min msg.nbytes nleft
    if nbytes > 0 then
      (.ok ⟨s.offset h, nbytes, (List.range nbytes).map fun i => byteAt stack t (s.offset h + i)⟩,
        { s with offset := Function.update s.offset h ((s.offset h + nbytes) % 2 ^ 64) })
    else (.ok ⟨0, 0, []⟩, { s with offset := Function.update s.offset h 0 })

def io_write (msg : WriteMsg) (s : State) : Except Errno ℕ × State :=
  if !msg.verified then (.error .other, s)
  else if !msg.xtype_none then (.error .ENOSYS, s)
  else if msg.nbytes > msg.data.length then (.error .EBADMSG, s)
  else if msg.nbytes = 0 then (.ok 0, s)
  else if msg.nbytes ≥ PWM_CTRL_MAX_STRLEN then (.error .EINVAL, s)
  else if !msg.got then (.error .other, s)
  else
    let p := strtoul 10 ((msg.data.take msg.nbytes).takeWhile (· ≠ '\x00'))
    if p.erange then (.error .EINVAL, s)
    else if p.val > PWM_CTRL_MAX_VAL.toNat then (.error .EINVAL, s)
    else
      match pwm_fan_set s.dev (BitVec.ofNat 32 p.val) with
      | none => (.error .EINVAL, s)
      | some dev => (.ok msg.nbytes, { s with dev := dev })

/-! ### Runs -/

inductive Op where
  | read (h : ℕ) (msg : ReadMsg) (stack : ℕ → Char)
  | write (msg : WriteMsg)
  /-- The power changes for another reason. -/
  | change (v : BitVec 32)

def step (s : State) : Op → State
  | .read h msg stack => (io_read stack h msg s).2
  | .write msg => (io_write msg s).2
  | .change v => { s with dev := { s.dev with pwm_ctrl := v } }

def run (s : State) (ops : List Op) : State := ops.foldl step s

/-- A read that gave bytes, perhaps none: by which handle, of which text, how many it asked for, and
which it got. -/
structure Answer where
  handle : ℕ
  text : Text
  nbytes : ℕ
  reply : Reply

def answer (s : State) : Op → Option Answer
  | .read h msg stack =>
    match (io_read stack h msg s).1 with
    | .ok reply => some ⟨h, text (pwm_fan_get s.dev), msg.nbytes, reply⟩
    | .error _ => none
  | _ => none

def answers : State → List Op → List Answer
  | _, [] => []
  | s, op :: ops => (answer s op).toList ++ answers (step s op) ops

/-- **A good answer**: a part of the text, from inside the buffer, and no more than was asked
for. -/
structure Good (a : Answer) : Prop where
  part : a.reply.data <:+: a.text
  length : a.reply.data.length = a.reply.count
  inside : a.reply.start + a.reply.count ≤ PWM_CTRL_MAX_STRLEN
  requested : a.reply.count ≤ a.nbytes

/-- **What a read must meet**: its handle is not past the end of the text as it is now. -/
def Sound (s : State) : Op → Prop
  | .read h msg _ => msg.verified = true → msg.xtype_none = true → msg.nbytes ≠ 0 →
      s.offset h ≤ (text (pwm_fan_get s.dev)).length
  | _ => True

def AllSound : State → List Op → Prop
  | _, [] => True
  | s, op :: ops => Sound s op ∧ AllSound (step s op) ops

instance (s : State) : (op : Op) → Decidable (Sound s op)
  | .read _ _ _ => inferInstanceAs (Decidable (_ → _ → _ → _))
  | .write _ => inferInstanceAs (Decidable True)
  | .change _ => inferInstanceAs (Decidable True)

instance decidableAllSound : (s : State) → (ops : List Op) → Decidable (AllSound s ops)
  | _, [] => inferInstanceAs (Decidable True)
  | s, op :: ops =>
    have := decidableAllSound (step s op) ops
    inferInstanceAs (Decidable (_ ∧ _))

/-- After the resource is opened: every handle at the start. -/
def start (dev : Dev) (nbytes : ℕ) : State := ⟨dev, nbytes, fun _ => 0⟩

/-! ### One read -/

theorem length_text_le (v : BitVec 32) : (text v).length ≤ 11 := by
  have hdigits : (Nat.toDigits 10 v.toNat).length ≤ 10 :=
    (Nat.length_toDigits_le_iff (by decide) (by decide)).mpr (Nat.lt_of_lt_of_le v.isLt (by decide))
  rw [text, List.length_append]
  exact Nat.succ_le_succ hdigits

/-- Reading behind the offset of a handle that is not past the end. -/
theorem nleft_eq {n o : ℕ} (hn : n ≤ 11) (ho : o ≤ n) :
    (n + 2 ^ 64 - o % 2 ^ 64) % 2 ^ 64 = n - o := by
  rw [Nat.mod_eq_of_lt (by omega : o < 2 ^ 64)]
  omega

/-- The bytes in the buffer are those of the text. -/
theorem map_byteAt {t : Text} (ht : t.length ≤ 11) (stack : ℕ → Char) {o k : ℕ}
    (h : o + k ≤ t.length) :
    (List.range k).map (fun i => byteAt stack t (o + i)) = (t.drop o).take k := by
  refine List.ext_getElem? fun i => ?_
  rw [List.getElem?_map, List.getElem?_take, List.getElem?_drop]
  by_cases hi : i < k
  · have hlt : o + i < t.length := by omega
    have htake : t.take (PWM_CTRL_MAX_STRLEN - 1) = t := List.take_of_length_le ht
    rw [List.getElem?_range hi, if_pos hi, Option.map_some, byteAt, htake,
      if_pos (by rw [PWM_CTRL_MAX_STRLEN]; omega), List.getElem?_eq_getElem hlt]
    rfl
  · rw [if_neg hi, List.getElem?_eq_none (by simpa using hi)]
    rfl

/-- No handle is past the longest text. -/
def Inv (s : State) : Prop := ∀ h, s.offset h ≤ 11

/-- **A read that is not past the end**: the rest of the text as far as it was asked for, or nothing
and the handle is back at the start. -/
theorem io_read_eq {stack : ℕ → Char} {h : ℕ} {msg : ReadMsg} {s : State} (hv : msg.verified = true)
    (hx : msg.xtype_none = true) (hn : msg.nbytes ≠ 0)
    (ho : s.offset h ≤ (text (pwm_fan_get s.dev)).length) :
    let t := text (pwm_fan_get s.dev)
    let k := min msg.nbytes (t.length - s.offset h)
    io_read stack h msg s =
      if 0 < k then (.ok ⟨s.offset h, k, (t.drop (s.offset h)).take k⟩,
          { s with nbytes := t.length, offset := Function.update s.offset h (s.offset h + k) })
        else (.ok ⟨0, 0, []⟩,
        { s with nbytes := t.length, offset := Function.update s.offset h 0 }) := by
  intro t k
  have hlen : t.length ≤ 11 := length_text_le _
  have hk : s.offset h + k ≤ t.length := by
    have hle : k ≤ t.length - s.offset h := Nat.min_le_right _ _
    have ho' : s.offset h ≤ t.length := ho
    omega
  have hmod : (s.offset h + k) % 2 ^ 64 = s.offset h + k := Nat.mod_eq_of_lt (by omega)
  unfold io_read
  rw [hv, hx, if_neg (by decide), if_neg (by decide), if_neg hn]
  dsimp only
  rw [nleft_eq hlen ho, map_byteAt hlen stack hk, hmod]

/-- A message that is answered with bytes. -/
def Plain (msg : ReadMsg) : Prop := msg.verified = true ∧ msg.xtype_none = true

/-- **What a read does**: it is refused, it gives nothing, or it gives a part of the text and moves
its handle on. -/
theorem read_cases {s : State} {h : ℕ} {msg : ReadMsg} {stack : ℕ → Char}
    (hs : Sound s (.read h msg stack)) :
    (answer s (.read h msg stack) = none ∧ step s (.read h msg stack) = s ∧ ¬ Plain msg) ∨
      (answer s (.read h msg stack) = some ⟨h, text (pwm_fan_get s.dev), msg.nbytes, ⟨0, 0, []⟩⟩ ∧
        (step s (.read h msg stack)).offset h ≤ s.offset h ∧
        ∀ h' ≠ h, (step s (.read h msg stack)).offset h' = s.offset h') ∨
      ∃ k, 0 < k ∧ k ≤ msg.nbytes ∧ s.offset h + k ≤ (text (pwm_fan_get s.dev)).length ∧
        answer s (.read h msg stack) = some ⟨h, text (pwm_fan_get s.dev), msg.nbytes,
          ⟨s.offset h, k, ((text (pwm_fan_get s.dev)).drop (s.offset h)).take k⟩⟩ ∧
        (step s (.read h msg stack)).offset = Function.update s.offset h (s.offset h + k) := by
  by_cases hv : msg.verified = true
  · by_cases hx : msg.xtype_none = true
    · by_cases hn : msg.nbytes = 0
      · have hsame : io_read stack h msg s = (.ok ⟨0, 0, []⟩, s) := by simp [io_read, hv, hx, hn]
        rw [answer, step, hsame]
        exact .inr (.inl ⟨rfl, le_refl _, fun _ _ => rfl⟩)
      · have ho := hs hv hx hn
        have hread := @io_read_eq stack h msg s hv hx hn ho
        dsimp only at hread
        rw [answer, step, hread]
        by_cases hk : 0 < min msg.nbytes ((text (pwm_fan_get s.dev)).length - s.offset h)
        · rw [if_pos hk]
          refine .inr (.inr ⟨_, hk, Nat.min_le_left _ _, ?_, rfl, rfl⟩)
          have hle := Nat.min_le_right msg.nbytes ((text (pwm_fan_get s.dev)).length - s.offset h)
          omega
        · rw [if_neg hk]
          refine .inr (.inl ⟨rfl, ?_, fun h' hh => Function.update_of_ne hh _ _⟩)
          dsimp only
          rw [Function.update_self]
          exact Nat.zero_le _
    · refine .inl ⟨?_, ?_, fun hp => hx hp.2⟩
      · simp [answer, io_read, hv, hx]
      · simp [step, io_read, hv, hx]
  · refine .inl ⟨?_, ?_, fun hp => hv hp.1⟩
    · simp [answer, io_read, hv]
    · simp [step, io_read, hv]

/-- The answer of such a read is good. -/
theorem good_read {s : State} {op : Op} {a : Answer} (hs : Sound s op) (h : answer s op = some a) :
    Good a := by
  cases op with
  | write msg => exact absurd h (by simp [answer])
  | change v => exact absurd h (by simp [answer])
  | read hd msg stack =>
      rcases read_cases hs with ⟨hnone, -⟩ | ⟨hempty, -⟩ | ⟨k, -, hk, hlen, hpart, -⟩
      · exact absurd (hnone.symm.trans h) (by simp)
      · rw [← Option.some.inj (hempty.symm.trans h)]
        exact ⟨List.nil_infix, rfl, Nat.zero_le _, Nat.zero_le _⟩
      · rw [← Option.some.inj (hpart.symm.trans h)]
        refine ⟨?_, ?_, ?_, hk⟩
        · exact (List.take_prefix _ _).isInfix.trans (List.drop_suffix _ _).isInfix
        · dsimp only
          rw [List.length_take, List.length_drop]
          omega
        · exact (hlen.trans (length_text_le _)).trans (by decide)

/-! ### Every run -/

theorem offset_write (msg : WriteMsg) (s : State) : (step s (.write msg)).offset = s.offset := by
  change (io_write msg s).2.offset = s.offset
  unfold io_write
  dsimp only
  repeat' split
  all_goals rfl

/-- **One message** leaves every handle within the longest text. -/
theorem inv_step {s : State} {op : Op} (h : Inv s) (hs : Sound s op) : Inv (step s op) := by
  intro h'
  cases op with
  | write msg =>
      rw [offset_write]
      exact h h'
  | change v => exact h h'
  | read hd msg stack =>
      rcases read_cases hs with ⟨-, hsame, -⟩ | ⟨-, hle, hother⟩ | ⟨k, -, -, hlen, -, hoff⟩
      · rw [hsame]
        exact h h'
      · by_cases hh : h' = hd
        · rw [hh]
          exact hle.trans (h hd)
        · rw [hother h' hh]
          exact h h'
      · rw [hoff]
        by_cases hh : h' = hd
        · rw [hh, Function.update_self]
          exact hlen.trans (length_text_le _)
        · rw [Function.update_of_ne hh]
          exact h h'

theorem good_answers {ops : List Op} :
    ∀ {s : State}, AllSound s ops → ∀ a ∈ answers s ops, Good a := by
  induction ops with
  | nil =>
      intro s _ a ha
      exact absurd ha List.not_mem_nil
  | cons op ops ih =>
      intro s hs a ha
      rcases List.mem_append.mp ha with ha | ha
      · exact good_read hs.1 (Option.mem_toList.mp ha)
      · exact ih hs.2 a ha

/-- The reads of one handle that are answered. -/
def readsOf (h : ℕ) : List Op → ℕ
  | [] => 0
  | .read h' msg _ :: ops =>
      (if h' = h ∧ msg.verified ∧ msg.xtype_none then 1 else 0) + readsOf h ops
  | _ :: ops => readsOf h ops

/-- Without an empty answer a handle moves on with each read, and it cannot go past the longest
text. -/
theorem readsOf_le {h : ℕ} {ops : List Op} : ∀ {s : State}, Inv s → AllSound s ops →
    (∀ a ∈ answers s ops, a.handle = h → a.reply.count ≠ 0) → readsOf h ops + s.offset h ≤ 11 := by
  induction ops with
  | nil =>
      intro s hinv _ _
      rw [readsOf, Nat.zero_add]
      exact hinv h
  | cons op ops ih =>
      intro s hinv hs hne
      have hrest := ih (inv_step hinv hs.1) hs.2 fun a ha => hne a (List.mem_append_right _ ha)
      cases op with
      | write msg =>
          rw [offset_write] at hrest
          exact hrest
      | change v => exact hrest
      | read hd msg stack =>
          rw [readsOf]
          by_cases hh : hd = h
          · subst hh
            rcases read_cases hs.1 with ⟨-, hsame, hplain⟩ | ⟨hempty, -⟩ | ⟨k, hk, -, -, -, hoff⟩
            · rw [hsame] at hrest
              rw [if_neg fun hp => hplain hp.2, Nat.zero_add]
              exact hrest
            · have hmem : _ ∈ answers s (.read hd msg stack :: ops) :=
                List.mem_append_left _ (Option.mem_toList.mpr hempty)
              exact absurd rfl (hne _ hmem rfl)
            · rw [hoff, Function.update_self] at hrest
              split <;> omega
          · rw [if_neg fun hp => hh hp.1, Nat.zero_add]
            have hoff : (step s (.read hd msg stack)).offset h = s.offset h := by
              rcases read_cases hs.1 with ⟨-, hsame, -⟩ | ⟨-, -, hother⟩ | ⟨k, -, -, -, -, hoff⟩
              · rw [hsame]
              · exact hother h fun heq => hh heq.symm
              · rw [hoff, Function.update_of_ne fun heq => hh heq.symm]
            rwa [hoff] at hrest

theorem allSound_append {l m : List Op} :
    ∀ {s : State}, AllSound s (l ++ m) ↔ AllSound s l ∧ AllSound (run s l) m := by
  induction l with
  | nil =>
      intro s
      exact ⟨fun h => ⟨trivial, h⟩, fun h => h.2⟩
  | cons op l ih =>
      intro s
      rw [List.cons_append, AllSound, AllSound, ih, and_assoc]
      rfl

theorem inv_run {ops : List Op} : ∀ {s : State}, Inv s → AllSound s ops → Inv (run s ops) := by
  induction ops with
  | nil =>
      intro s h _
      exact h
  | cons op ops ih =>
      intro s h hs
      exact ih (inv_step h hs.1) hs.2

/-- **Reading the power**: in every run in which no read starts past the end of the text as it then
is, every answer is a part of that text from inside the buffer and no longer than asked for; and
wherever in the run a handle is read twelve times, one of these reads gives nothing. -/
theorem reads_run {dev : Dev} {nbytes : ℕ} {ops : List Op} (hs : AllSound (start dev nbytes) ops) :
    (∀ a ∈ answers (start dev nbytes) ops, Good a) ∧
      ∀ before part after, ops = before ++ part ++ after → ∀ h, 12 ≤ readsOf h part →
        ∃ a ∈ answers (run (start dev nbytes) before) part, a.handle = h ∧ a.reply.count = 0 := by
  refine ⟨good_answers hs, fun before part after hops h hreads => ?_⟩
  rw [hops, allSound_append, allSound_append] at hs
  have hinv : Inv (run (start dev nbytes) before) := inv_run (fun _ => Nat.zero_le _) hs.1.1
  by_contra hno
  have hle := readsOf_le (h := h) hinv hs.1.2 fun a ha hh hzero => hno ⟨a, ha, hh, hzero⟩
  omega

/-- The fan as it is started. -/
def started : State := start ⟨127, 4166, 2083⟩ 0

/-- A read of `n` bytes by the first handle. -/
def readBytes (n : ℕ) : Op := .read 0 ⟨true, true, n⟩ fun _ => 'x'

/-- Two handles read, and the power is set to 45. -/
def shared : List Op :=
  [readBytes 2, .read 1 ⟨true, true, 20⟩ fun _ => 'x', .write ⟨true, true, 2, "45".toList, true⟩]

/-- Then the first handle reads twelve times. -/
def twelve : List Op := List.replicate 12 (readBytes 20)

theorem reads_run_shared :
    ((answers started (shared ++ twelve)).take 4).map (fun a => (a.handle, a.reply.data)) =
        [(0, "12".toList), (1, "127\n".toList), (0, "\n".toList), (0, [])] ∧
      (∀ a ∈ answers started (shared ++ twelve), Good a) ∧
      ∃ a ∈ answers (run started shared) twelve, a.handle = 0 ∧ a.reply.count = 0 := by
  have hs : AllSound started (shared ++ twelve) := by decide +kernel
  obtain ⟨hgood, hempty⟩ := reads_run hs
  exact ⟨by decide +kernel, hgood, hempty shared twelve [] (List.append_nil _).symm 0 (by decide)⟩

/-- Three characters of `127` are read, the power is set to 0, and twenty more are asked for: the
answer starts behind the text that is there now, and ends behind the buffer. -/
theorem shorter_text_leaks_stack :
    (answers started [readBytes 3, .write ⟨true, true, 1, "0".toList, true⟩, readBytes 20]).map
        (fun a => (a.text, a.reply.start, a.reply.count)) =
          [("127\n".toList, 0, 3), ("0\n".toList, 3, 20)] ∧
      ∃ a ∈ answers started [readBytes 3, .write ⟨true, true, 1, "0".toList, true⟩, readBytes 20],
      ¬ Good a := by
  have hmap : (answers started
      [readBytes 3, .write ⟨true, true, 1, "0".toList, true⟩, readBytes 20]).map
      (fun a => (a.text, a.reply.start, a.reply.count)) =
        [("127\n".toList, 0, 3), ("0\n".toList, 3, 20)] := by
    decide +kernel
  refine ⟨hmap, ?_⟩
  have hmem : ("0\n".toList, 3, 20) ∈
      (answers started [readBytes 3, .write ⟨true, true, 1, "0".toList, true⟩,
      readBytes 20]).map (fun a => (a.text, a.reply.start, a.reply.count)) := by
    rw [hmap]
    exact List.mem_cons_of_mem _ List.mem_cons_self
  obtain ⟨a, ha, heq⟩ := List.mem_map.mp hmem
  refine ⟨a, ha, fun hgood => ?_⟩
  have hinside := hgood.inside
  rw [(Prod.mk.inj (Prod.mk.inj heq).2).1, (Prod.mk.inj (Prod.mk.inj heq).2).2] at hinside
  exact absurd hinside (by decide)

end Fan
