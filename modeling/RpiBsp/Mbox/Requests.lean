import RpiBsp.Mbox.Definitions

/-!
# Mbox — the requests

What an argument of the command line is a request for, and what is sent for it.

* `mbox_msg_leaves` — the message that is sent, if the channel takes one;
* `argument_leaves` — what every argument of the command line sends, and that all accesses are
inside;
* `argument_requests_iff` — **main**: exactly which arguments are sent as they are meant.

The loop over the arguments of an option reads its name each time, so the first argument is the
number that the name is, and there are no others.
-/

namespace Mbox

open Support Touching

/-! ### What is meant -/

/-- A text that is a number. -/
structure Argument where
  text : Text
  number : (scan 0 text).isSome = true
  whole : (strtoul 0 text).rest = []

/-- What a text is as a word; what is out of range counts as zero. -/
def value (s : Text) : ℕ := if (strtoul 0 s).erange then 0 else u32 (strtoul 0 s).val

/-- An argument of the command line. -/
inductive Line where
  /-- `name` -/
  | bare (name : Text)
  /-- `name:a1:…:an` -/
  | get (name : Text) (a : Argument) (as : List Argument)
  /-- `name=a1:…:an` -/
  | set (name : Text) (a : Argument) (as : List Argument)

namespace Line

def name : Line → Text
  | bare name => name
  | get name _ _ => name
  | set name _ _ => name

def args : Line → List Argument
  | bare _ => []
  | get _ a as => a :: as
  | set _ a as => a :: as

def isSet : Line → Bool
  | set _ _ _ => true
  | _ => false

def joined (a : Argument) (as : List Argument) : Text := a.text ++ as.flatMap fun b => ':' :: b.text

def text : Line → Text
  | bare name => name
  | get name a as => name ++ ':' :: joined a as
  | set name a as => name ++ '=' :: joined a as

/-- The words of the arguments. -/
def words (l : Line) : List ℕ := l.args.map fun a => value a.text

end Line

/-- A name, or a number, with its tag, whether it is the one that stays as it is for `=`, and how
many words it has of its own. -/
inductive Names (name : Text) : ℕ → Bool → ℕ → Prop where
  | known {c : CmdOption} : cmd_options.find? (fun c => c.str = name) = some c →
      Names name c.tag (c.tag = MBOX_TAG_NOTIFY_XHCI_RESET) c.len
  | number : cmd_options.find? (fun c => c.str = name) = none → (∀ c ∈ name, isSep c = false) →
      (strtoul 0 name).erange = false → u32 (strtoul 0 name).val ≠ 0 →
      Names name (u32 (strtoul 0 name).val) false 2

/-- The tag of a request. -/
def requestTag (isSet exempt : Bool) (tag : ℕ) : ℕ :=
  if isSet = true ∧ exempt = false then tag ||| 0x8000 else tag

/-- Words up to the larger of their number and `len`. -/
def payload (len : ℕ) (words : List ℕ) : List ℕ :=
  words ++ List.replicate (max words.length len - words.length) 0

/-- What the firmware sees of a request. -/
def message (tag : ℕ) (words : List ℕ) : List UInt8 :=
  fields 4 ([24 + 4 * words.length, MBOX_PROCESS_REQUEST, tag, 4 * words.length,
    MBOX_TAG_REQUEST] ++ words ++ [MBOX_TAG_NULL])

/-- The channel takes a message in time, from the `n`-th read on. -/
def Room (fw : Firmware) (n : ℕ) : Prop := ∃ k ≤ 5000, (fw.regs (n + k)).testBit FULL_BIT = false

variable {fw : Firmware} {s : State}

/-! ### The message -/

theorem access_leaves {region : Region} {off len : ℕ} {Q : Unit → State → Prop}
    (hin : len ≠ 0 → off + len ≤ sizes region)
    (h : Q () s) : Leaves sizes (access region off len) Q s := Leaves.touch hin h

theorem readReg_bind {α : Type} {f : ℕ → Run α} {R : α → State → Prop}
    (h : Leaves sizes (f (fw.regs s.reads)) R { s with reads := s.reads + 1 }) :
      Leaves sizes (readReg fw >>= f) R s := by
  refine Leaves.bind (Q := fun a t => a = fw.regs s.reads ∧ t = { s with reads := s.reads + 1 })
    ?_ ?_
  · refine Leaves.get_bind
      (Leaves.bind (Q := fun _ t => t = { s with reads := s.reads + 1 }) (Leaves.modify rfl) ?_)
    exact fun _ _ ht => Leaves.pure ⟨rfl, ht⟩
  · rintro _ _ ⟨rfl, rfl⟩
    exact h

/-- A wait reads registers only. -/
theorem waitClear_leaves (bit left : ℕ) : Leaves sizes (waitClear fw bit left)
    (fun r t => (r.isSome = true ↔ ∃ k ≤ left, (fw.regs (s.reads + k)).testBit bit = false) ∧
      ∃ n, t = { s with reads := n }) s := by
  induction left generalizing s with
  | zero =>
      refine readReg_bind (Leaves.ite (fun h => Leaves.pure ⟨?_, _, rfl⟩) fun h =>
        Leaves.pure ⟨?_, _, rfl⟩)
      · exact ⟨fun _ => ⟨0, Nat.le_refl 0, h⟩, fun _ => rfl⟩
      · refine ⟨fun h => absurd h (by simp), fun ⟨k, hk, hclear⟩ => ?_⟩
        obtain rfl : k = 0 := Nat.le_zero.mp hk
        exact absurd hclear h
  | succ left ih =>
      refine readReg_bind (Leaves.ite (fun h => Leaves.pure ⟨?_, _, rfl⟩) fun h => ih.mono ?_)
      · exact ⟨fun _ => ⟨0, Nat.zero_le _, h⟩, fun _ => rfl⟩
      · rintro r t ⟨hr, n, rfl⟩
        refine ⟨hr.trans ⟨fun ⟨k, hk, hclear⟩ => ⟨k + 1, by omega, ?_⟩, fun ⟨k, hk, hclear⟩ => ?_⟩,
          n, rfl⟩
        · rwa [Nat.add_comm k 1, ← Nat.add_assoc]
        · cases k with
          | zero => exact absurd hclear h
          | succ k => exact ⟨k, by omega, by rwa [Nat.add_right_comm]⟩

/-- Nothing is sent, and all accesses are inside. -/
def Quiet {α : Type} (m : Run α) : Prop := ∀ s, Leaves sizes m (fun _ t => t.sent = s.sent) s

theorem Quiet.bind {α β : Type} {m : Run α} {f : α → Run β} (hm : Quiet m) (hf : ∀ a, Quiet (f a)) :
    Quiet (m >>= f) :=
  fun s => (hm s).bind fun a t ht => (hf a t).mono fun _ _ hu => hu.trans ht

theorem Quiet.pure {α : Type} (a : α) : Quiet (pure a : Run α) := fun _ => Leaves.pure rfl

theorem quiet_access {region : Region} {off len : ℕ} (h : len ≠ 0 → off + len ≤ sizes region) :
    Quiet (access region off len) := fun _ => access_leaves h rfl

theorem quiet_printf (text : Text) : Quiet (printf text) := fun _ => Leaves.modify rfl

theorem receive_quiet (fuel : ℕ) : Quiet (receive fw fuel) := by
  induction fuel with
  | zero => exact Quiet.pure none
  | succ fuel ih =>
      intro s
      refine (waitClear_leaves EMPTY_BIT 5000).bind fun r t ht => ?_
      obtain ⟨n, rfl⟩ := ht.2
      cases r with
      | none => exact Leaves.pure rfl
      | some left =>
          refine readReg_bind (Leaves.ite (fun _ => ?_) fun _ => (ih _).mono fun _ _ ht => ht)
          exact Leaves.modify_bind (Leaves.pure rfl)

theorem copyBack_quiet {len : ℕ} (h : len ≤ 4 * 257) : Quiet (copyBack len) := by
  refine (quiet_access fun _ => ?_).bind fun _ => (quiet_access fun _ => ?_).bind fun _ _ =>
    Leaves.modify rfl
  · change 20 + len ≤ 0x1000
    omega
  · change 0 + len ≤ 4 * (256 + 1)
    omega

/-- The answer is cut to the size of the buffer. -/
theorem reply_leaves {bufsize : ℕ} (tag : ℕ) (h : bufsize ≤ 4 * 257) :
    Leaves sizes (reply tag bufsize) (fun r t => r ≤ bufsize ∧ t.sent = s.sent) s := by
  have hback : ∀ {len : ℕ} {s : State}, len ≤ bufsize →
      Leaves sizes (do copyBack len; return (len : ℤ))
        (fun r t => r ≤ bufsize ∧ t.sent = s.sent) s := by
    refine fun {len s} hlen => (copyBack_quiet (hlen.trans h) s).bind fun _ _ ht =>
      Leaves.pure ⟨?_, ht⟩
    exact Int.ofNat_le.mpr hlen
  refine (quiet_access (fun _ => ?_) s).bind fun _ t ht => Leaves.get_bind ?_
  · exact (show 16 + 4 ≤ 0x1000 by decide)
  · rw [← ht]
    refine Leaves.ite (fun _ => Leaves.ite (fun _ => hback ?_) fun hlen => Leaves.pure ⟨?_, rfl⟩)
      fun _ => hback (Nat.le_refl _)
    · split <;> omega
    · omega

/-- The header, the words and the end, one behind the other. -/
theorem bytes_composed {f out : ℕ → UInt8} {tag bufsize : ℕ} {words : List ℕ}
    (hwords : bytes f 0 bufsize = fields 4 words)
    (hsize : bufsize = 4 * words.length) (hle : words.length ≤ 257) :
    let page := store 4 (20 + bufsize) MBOX_TAG_NULL (write 20 (bytes f 0 bufsize) (write 0
      (fields 4 [u32 (24 + bufsize), MBOX_PROCESS_REQUEST, tag, bufsize, MBOX_TAG_REQUEST]) out))
    bytes page 0 (load 4 0 page) = message tag words := by
  intro page
  have hhead : u32 (24 + bufsize) = 24 + bufsize := Nat.mod_eq_of_lt (by omega)
  have hpage : bytes page 0 (24 + 4 * words.length) = message tag words := by
    have hend := bytes_write (write 20 (bytes f 0 bufsize) (write 0
      (fields 4 [u32 (24 + bufsize), MBOX_PROCESS_REQUEST, tag, bufsize, MBOX_TAG_REQUEST]) out))
        (20 + bufsize)
      (leBytes 4 MBOX_TAG_NULL)
    have hbody := bytes_write (write 0
      (fields 4 [u32 (24 + bufsize), MBOX_PROCESS_REQUEST, tag, bufsize, MBOX_TAG_REQUEST]) out) 20
        (bytes f 0 bufsize)
    have hhdr := bytes_write out 0
      (fields 4 [u32 (24 + bufsize), MBOX_PROCESS_REQUEST, tag, bufsize, MBOX_TAG_REQUEST])
    rw [length_fields] at hhdr
    change bytes _ 0 20 = _ at hhdr
    rw [length_bytes] at hbody
    rw [length_leBytes, ← store_eq_write, hbody, hhdr] at hend
    rw [show 24 + 4 * words.length = 20 + bufsize + 4 by omega, message, fields_append,
      fields_append, ← hwords, ← hsize, ← hhead]
    exact hend
  have hload : load 4 0 page = 24 + 4 * words.length := by
    have hfields : Holds page 0 ([] ++ message tag words ++ []) := by
      rw [List.nil_append, List.append_nil]
      exact holds_of_bytes hpage
    have hfield := hfields.field (j := 0) (v := 24 + 4 * words.length) rfl
    rwa [Nat.mod_eq_of_lt (by omega)] at hfield
  rw [hload, hpage]

/-- What is in the page once it is composed. -/
theorem compose_leaves {tag bufsize : ℕ} {words : List ℕ}
    (hwords : bytes s.opt_arg 0 bufsize = fields 4 words)
    (hsize : bufsize = 4 * words.length) (hle : words.length ≤ 257) :
    Leaves sizes (compose tag bufsize) (fun _ t => t.sent = s.sent ∧ t.reads = s.reads ∧
      bytes t.out 0 (load 4 0 t.out) = message tag words) s := by
  refine Leaves.touch_bind (fun _ => (show 0 + 20 ≤ 0x1000 by decide)) (Leaves.modify_bind ?_)
  refine Leaves.touch_bind (fun _ => ?_) (Leaves.touch_bind (fun _ => ?_) (Leaves.modify_bind ?_))
  · change 0 + bufsize ≤ 4 * (256 + 1)
    omega
  · change 20 + bufsize ≤ 0x1000
    omega
  refine Leaves.touch_bind (fun _ => ?_) (Leaves.modify ⟨rfl, rfl, ?_⟩)
  · change 20 + bufsize + 4 ≤ 0x1000
    omega
  exact bytes_composed hwords hsize hle

/-- The message is sent if the channel takes one. -/
def Sends (fw : Firmware) (m : List UInt8) (s t : State) : Prop :=
  (Room fw s.reads → t.sent = s.sent ++ [m]) ∧ (¬ Room fw s.reads → t.sent = s.sent)

theorem Sends.quiet {m : List UInt8} {t u : State} (h : Sends fw m s t) (hu : u.sent = t.sent) :
    Sends fw m s u :=
  ⟨fun hroom => hu.trans (h.1 hroom), fun hroom => hu.trans (h.2 hroom)⟩

theorem mbox_msg_leaves {tag bufsize : ℕ} {words : List ℕ} (fuel : ℕ)
    (hwords : bytes s.opt_arg 0 bufsize = fields 4 words) (hsize : bufsize = 4 * words.length)
    (hle : words.length ≤ 257) :
    Leaves sizes (mbox_msg fw fuel tag bufsize)
      (fun r t => (∀ ret ∈ r, ret ≤ bufsize) ∧ Sends fw (message tag words) s t) s := by
  refine (compose_leaves hwords hsize hle).bind fun _ t ⟨hsent, hreads, hpage⟩ => ?_
  refine (waitClear_leaves FULL_BIT 5000).bind fun r u hu => ?_
  obtain ⟨hr, n, rfl⟩ := hu
  rw [hreads] at hr
  cases r with
  | none =>
      have hroom : ¬ Room fw s.reads := fun h => absurd (hr.mpr h) (by simp)
      exact (quiet_printf _ _).bind fun _ u hu => Leaves.pure
        ⟨by rintro _ ⟨⟩; omega, fun h => absurd h hroom, fun _ => hu.trans hsent⟩
  | some left =>
      have hroom : Room fw s.reads := hr.mp rfl
      refine Leaves.modify_bind ((waitClear_leaves FULL_BIT left).bind fun r u hu => ?_)
      obtain ⟨-, n, rfl⟩ := hu
      have hsends : Sends fw (message tag words) s
          { t with reads := n, sent := t.sent ++ [bytes t.out 0 (load 4 0 t.out)] } :=
        ⟨fun _ => by rw [hpage, ← hsent], fun h => absurd hroom h⟩
      cases r with
      | none =>
          exact (quiet_printf _ _).bind fun _ u hu =>
            Leaves.pure ⟨by rintro _ ⟨⟩; omega, hsends.quiet hu⟩
      | some left =>
          refine (receive_quiet fuel _).bind fun r u hu => ?_
          cases r with
          | none => exact Leaves.pure ⟨by rintro _ ⟨⟩, hsends.quiet hu⟩
          | some answered =>
              cases answered with
              | false =>
                  exact (quiet_printf _ _).bind fun _ v hv => Leaves.pure
                    ⟨by rintro _ ⟨⟩; omega, hsends.quiet (hv.trans hu)⟩
              | true =>
                  refine (reply_leaves tag (by omega)).bind fun ret v hv =>
                    Leaves.pure ⟨?_, hsends.quiet (hv.2.trans hu)⟩
                  rintro _ ⟨⟩
                  exact hv.1

/-! ### The formats -/

theorem word_quiet {i : ℕ} (h : i < 257) : Quiet (word i) := by
  refine (quiet_access fun _ => ?_).bind fun _ _ => Leaves.get_bind (Leaves.pure rfl)
  change 4 * i + 4 ≤ 4 * (256 + 1)
  omega

theorem fmt_words_quiet (print : ℕ → Text) {n k : ℕ} (hn : n ≤ 257) (hk : k ≤ n) :
    Quiet (fmt_words print n k) := by
  induction k with
  | zero => exact quiet_printf _
  | succ k ih =>
      refine (word_quiet (by omega)).bind fun v => (quiet_printf _).bind fun _ => ?_
      exact ih (by omega)

theorem fmt_s_quiet {len : ℕ} (h : len ≤ 4 * 257) : Quiet (fmt_s len) := by
  refine fun s => Leaves.get_bind
    (((quiet_access fun _ => ?_).bind fun _ => (quiet_printf _).bind fun _ => quiet_printf _) s)
  change 0 + min len _ ≤ 4 * (256 + 1)
  omega

/-- A format is given no more than the buffer. -/
theorem fmt_x_quiet {len : ℕ} (h : len ≤ 4 * 257) : Quiet (fmt_x len) := by
  have hlen : u32 (len + 3) = len + 3 := Nat.mod_eq_of_lt (by omega)
  exact fmt_words_quiet _ (by rw [hlen]; omega) (Nat.le_refl _)

theorem fmt_quiet {len : ℕ} (h : len ≤ 4 * 257) : ∀ c ∈ cmd_options, Quiet (c.fmt len) := by
  have hd : Quiet (fmt_d len) := fmt_words_quiet _ (by omega) (Nat.le_refl _)
  have hu : Quiet (fmt_u len) := fmt_words_quiet _ (by omega) (Nat.le_refl _)
  have hstr : Quiet (fmt_x_str len) := fmt_words_quiet _ (by omega) (Nat.le_refl _)
  simp only [cmd_options, List.forall_mem_cons, hd, hu, hstr, fmt_x_quiet h, fmt_s_quiet h,
    List.not_mem_nil, true_and, false_implies, implies_true]

/-! ### The requests -/

theorem request_leaves {fmt : ℕ → Run Unit} {tag : ℕ} {words : List ℕ} (fuel : ℕ) (complaint : Text)
    (hfmt : ∀ len ≤ 4 * 257, Quiet (fmt len))
    (hwords : bytes s.opt_arg 0 (4 * words.length) = fields 4 words)
    (hle : words.length ≤ 257) :
    Leaves sizes (request fw fuel fmt tag words.length complaint)
      (fun _ t => Sends fw (message tag words) s t) s := by
  have hsize : u32 (4 * words.length) = 4 * words.length := Nat.mod_eq_of_lt (by omega)
  refine Leaves.bind (mbox_msg_leaves fuel (by rw [hsize]; exact hwords) hsize hle) fun r t
    ⟨hret, hsends⟩ => ?_
  cases r with
  | none => exact Leaves.pure hsends
  | some ret =>
      have hlen : ret.toNat ≤ 4 * 257 := by
        have := hret ret rfl
        omega
      refine Leaves.bind (Q := fun _ u => u.sent = t.sent) ?_ fun _ u hu =>
        Leaves.pure (hsends.quiet hu)
      exact Leaves.ite (fun _ => hfmt _ hlen t) fun _ => quiet_printf _ t

/-- A name of the table is no number. -/
theorem scan_str : ∀ c ∈ cmd_options, scan 0 c.str = none := by decide

theorem str_plain : ∀ c ∈ cmd_options, ∀ a ∈ c.str, isSep a = false := by
  have hall : ∀ c ∈ cmd_options, (c.str.all fun a => !isSep a) = true := by decide
  intro c hc a ha
  simpa using List.all_eq_true.mp (hall c hc) a ha

theorem len_bounds : ∀ c ∈ cmd_options, 0 < c.len ∧ c.len ≤ 256 ∧ c.tag < 2 ^ 32 := by decide

theorem mem_of_find {name : Text} {c : CmdOption} {cs : List CmdOption}
    (h : cs.find? (fun c => c.str = name) = some c) : c ∈ cs ∧ c.str = name :=
  ⟨List.mem_of_find?_eq_some h, by simpa using List.find?_some h⟩

/-- The words that are sent: for an option, the number that its name is. -/
def sentWords (l : Line) (len : ℕ) : List ℕ :=
  if l.args = [] then List.replicate len 0 else value l.name :: List.replicate (len - 1) 0

theorem value_lt (a : Text) : value a < 2 ^ 32 := by
  unfold value
  split
  · exact Nat.two_pow_pos 32
  · exact Nat.mod_lt _ (Nat.two_pow_pos 32)

/-- The table is looked through as far as the request. -/
theorem findOption_leaves {name : Text} {tag len num_arg : ℕ} {exempt : Bool} {words : List ℕ}
    (fuel : ℕ) (isSet : Bool)
    (h : Names name tag exempt len) (hwords : bytes s.opt_arg 0 (4 * words.length) = fields 4 words)
    (hlen : words.length = max num_arg len) (hle : words.length ≤ 257) :
    Leaves sizes (findOption fw fuel name isSet num_arg cmd_options)
      (fun _ t => Sends fw (message (requestTag isSet exempt tag) words) s t) s := by
  cases h with
  | @known c hfind =>
      obtain ⟨hmem, hname⟩ := mem_of_find hfind
      have hscan : strtoul 0 name = ⟨0, name, false⟩ := by rw [strtoul, ← hname, scan_str c hmem]
      have hgo : ∀ cs : List CmdOption, cs.find? (fun c => c.str = name) = some c →
          Leaves sizes (findOption fw fuel name isSet num_arg cs) (fun _ t => Sends fw
            (message (requestTag isSet (c.tag = MBOX_TAG_NOTIFY_XHCI_RESET) c.tag) words) s t)
              s := by
        intro cs hcs
        induction cs with
        | nil => exact absurd hcs (by simp)
        | cons d cs ih =>
            refine Leaves.ite (fun hd => ?_) fun hd => Leaves.ite (fun hv => ?_) fun _ => ih ?_
            · obtain rfl : d = c := by simpa [hd] using hcs
              rw [← hlen]
              refine (request_leaves fuel _ (fun n hn => fmt_quiet hn d hmem) hwords hle).bind
                fun r t ht => Leaves.pure ?_
              simpa [requestTag] using ht
            · exact absurd rfl (hscan ▸ hv.2)
            · rwa [List.find?_cons_of_neg (by simpa using fun h => hd h.symm)] at hcs
      exact hgo cmd_options hfind
  | number hfind _ hok hne =>
      refine Leaves.ite (fun hd => ?_) fun _ => Leaves.ite (fun _ => ?_) fun hv =>
        absurd ⟨hok, hne⟩ hv
      · exact absurd hd (fun hd => by
          simpa [hd] using List.find?_eq_none.mp hfind _ List.mem_cons_self)
      · rw [← hlen]
        refine (request_leaves fuel _ (fun _ => fmt_x_quiet) hwords hle).bind fun r t ht =>
          Leaves.pure ?_
        simpa [requestTag] using ht

/-- The loop over the arguments ends after its first round. -/
theorem parseArgs_leaves {name : Text} (hname : ∀ c ∈ name, isSep c = false) :
    Leaves sizes (parseArgs name 0 257)
    (fun n t => n = 1 ∧ t = { s with opt_arg := store 4 0 (value name) s.opt_arg }) s := by
  have hrest : (strtoul 0 name).rest.head? ≠ some ':' := fun h =>
    absurd (hname _ (mem_of_mem_rest (List.mem_of_mem_head? h))) (by decide)
  refine Leaves.bind (Q := fun _ t => t = { s with opt_arg := store 4 0 (value name) s.opt_arg })
    ?_ ?_
  · exact Leaves.touch_bind (fun _ => (show 4 * 0 + 4 ≤ 4 * (256 + 1) by decide))
      (Leaves.modify rfl)
  · rintro _ _ rfl
    exact Leaves.ite (fun _ => Leaves.pure ⟨rfl, rfl⟩) fun h => absurd hrest h

theorem bytes_zeros (n : ℕ) :
    bytes (fun _ => (0 : UInt8)) 0 (4 * n) = fields 4 (List.replicate n 0) := by
  rw [fields_zeros]
  simp [bytes]

theorem bytes_first (v n : ℕ) :
    bytes (store 4 0 v fun _ => 0) 0 (4 * (n + 1)) = fields 4 (v :: List.replicate n 0) := by
  have hhead := bytes_write (fun _ => (0 : UInt8)) 0 (leBytes 4 v)
  have hrest : bytes (store 4 0 v fun _ => 0) 4 (4 * n) = bytes (fun _ => 0) 0 (4 * n) :=
    List.map_congr_left fun k _ => store_outside (by omega)
  rw [Nat.mul_succ, Nat.add_comm, bytes_add, hrest, bytes_zeros, store_eq_write]
  rw [length_leBytes, Nat.zero_add] at hhead
  rw [hhead]
  rfl

/-- A line, taken apart at its separator. -/
theorem text_split (l : Line) (h : ∀ c ∈ l.name, isSep c = false) :
    (l.text.takeWhile fun c => !isSep c) = l.name ∧
      (l.text.dropWhile fun c => !isSep c).head? = if l.args = [] then none
        else some (if l.isSet then '=' else ':') := by
  have hpos : ∀ c ∈ l.name, (!isSep c) = true := fun c hc => by rw [h c hc]; rfl
  cases l with
  | bare name =>
      have htake := @List.takeWhile_append_of_pos _ _ _ [] hpos
      have hdrop := @List.dropWhile_append_of_pos _ _ _ [] hpos
      simp only [List.append_nil, List.takeWhile_nil, List.dropWhile_nil] at htake hdrop
      exact ⟨htake, congrArg List.head? hdrop⟩
  | get name a as =>
      refine ⟨(List.takeWhile_append_of_pos hpos).trans ?_,
        congrArg List.head? (List.dropWhile_append_of_pos hpos)⟩
      rw [List.takeWhile_cons_of_neg (by decide), List.append_nil]
  | set name a as =>
      refine ⟨(List.takeWhile_append_of_pos hpos).trans ?_,
        congrArg List.head? (List.dropWhile_append_of_pos hpos)⟩
      rw [List.takeWhile_cons_of_neg (by decide), List.append_nil]

theorem Names.plain {name : Text} {tag len : ℕ} {exempt : Bool} (h : Names name tag exempt len) :
    ∀ c ∈ name, isSep c = false := by
  cases h with
  | known hfind =>
      obtain ⟨hmem, rfl⟩ := mem_of_find hfind
      exact str_plain _ hmem
  | number _ hplain _ _ => exact hplain

theorem Names.bounds {name : Text} {tag len : ℕ} {exempt : Bool} (h : Names name tag exempt len) :
    0 < len ∧ len ≤ 256 ∧ tag < 2 ^ 32 := by
  cases h with
  | known hfind => exact len_bounds _ (mem_of_find hfind).1
  | number => exact ⟨by decide, by decide, Nat.mod_lt _ (Nat.two_pow_pos 32)⟩

/-- What an argument of the command line sends, and where it accesses memory. -/
theorem argument_leaves {l : Line} {tag len : ℕ} {exempt : Bool} (fuel : ℕ)
    (h : Names l.name tag exempt len) :
    Leaves sizes (argument fw fuel l.text)
      (fun _ t => Sends fw (message (requestTag l.isSet exempt tag) (sentWords l len)) s t) s := by
  obtain ⟨htake, hdrop⟩ := text_split l h.plain
  obtain ⟨hpos, hle, -⟩ := h.bounds
  refine Leaves.modify_bind ?_
  rw [htake, hdrop]
  refine Leaves.bind (Q := fun n t => (t.sent = s.sent ∧ t.reads = s.reads) ∧
    bytes t.opt_arg 0 (4 * (sentWords l len).length) = fields 4 (sentWords l len) ∧
    (sentWords l len).length = max n len) ?_ ?_
  · by_cases hargs : l.args = []
    · rw [if_pos hargs]
      refine Leaves.pure ⟨⟨rfl, rfl⟩, ?_⟩
      rw [sentWords, if_pos hargs, List.length_replicate]
      exact ⟨bytes_zeros len, (Nat.zero_max len).symm⟩
    · rw [if_neg hargs]
      refine (parseArgs_leaves h.plain).mono ?_
      rintro _ _ ⟨rfl, rfl⟩
      obtain ⟨n, rfl⟩ := Nat.exists_eq_succ_of_ne_zero hpos.ne'
      rw [sentWords, if_neg hargs, List.length_cons, List.length_replicate]
      exact ⟨⟨rfl, rfl⟩, bytes_first _ _, (Nat.max_eq_right hpos).symm⟩
  · rintro n t ⟨⟨hsent, hreads⟩, hbytes, hlen⟩
    have hset : ((if l.args = [] then none else some (if l.isSet then '=' else ':')) = some '=') =
        (l.isSet = true) := by
      cases l <;> simp [Line.args, Line.isSet]
    have hfits : (sentWords l len).length ≤ 257 := by
      unfold sentWords
      split <;> simp <;> omega
    refine (findOption_leaves fuel _ h hbytes hlen hfits).bind fun found u hu => ?_
    have hsends : Sends fw (message (requestTag l.isSet exempt tag) (sentWords l len)) s u := by
      simpa only [Sends, hsent, hreads, hset, Bool.decide_eq_true] using hu
    split
    · exact (quiet_printf _ _).bind fun _ v hv => Leaves.pure (hsends.quiet hv)
    · exact Leaves.pure hsends

/-! ### What is sent as it is meant -/

/-- The arguments are what the loop makes of them: there are none, or there are no more than the
words that the option has anyway, the first is the number that the name is, and the others are
zero. -/
def Unread (l : Line) (len : ℕ) : Prop :=
  l.args = [] ∨ l.args.length ≤ len ∧ l.words = value l.name :: List.replicate (l.args.length - 1) 0

theorem sentWords_eq_iff (l : Line) {len : ℕ} (hpos : 0 < len) :
    sentWords l len = payload len l.words ↔ Unread l len := by
  have hlen : l.words.length = l.args.length := List.length_map _
  unfold sentWords payload Unread
  by_cases hargs : l.args = []
  · rw [if_pos hargs, show l.words = [] from congrArg (List.map _) hargs]
    simp [hargs]
  · have hn : 0 < l.args.length := List.length_pos_iff.mpr hargs
    rw [if_neg hargs, hlen]
    constructor
    · intro heq
      have hle : l.args.length ≤ len := by
        have := congrArg List.length heq
        simp only [List.length_cons, List.length_append, List.length_replicate, hlen] at this
        omega
      have htake := congrArg (List.take l.args.length) heq
      rw [← hlen, List.take_left, hlen] at htake
      refine .inr ⟨hle, htake.symm.trans ?_⟩
      obtain ⟨n, hn'⟩ := Nat.exists_eq_succ_of_ne_zero hn.ne'
      rw [hn', List.take_succ_cons, List.take_replicate, Nat.min_eq_left (by omega)]
      rfl
    · rintro (h | ⟨hle, hwords⟩)
      · exact absurd h hargs
      · rw [hwords, List.cons_append, List.replicate_append_replicate]
        congr 2
        omega

theorem message_inj {tag : ℕ} {us vs : List ℕ} (htag : tag < 2 ^ 32) (hu : ∀ u ∈ us, u < 2 ^ 32)
    (hv : ∀ v ∈ vs, v < 2 ^ 32)
    (hus : us.length ≤ 2 ^ 29) (hvs : vs.length ≤ 2 ^ 29) :
      message tag us = message tag vs ↔ us = vs := by
  refine ⟨fun h => ?_, fun h => h ▸ rfl⟩
  have hlt : ∀ {ws : List ℕ}, (∀ w ∈ ws, w < 2 ^ 32) → ws.length ≤ 2 ^ 29 → ∀ w ∈
      [24 + 4 * ws.length, MBOX_PROCESS_REQUEST, tag, 4 * ws.length, MBOX_TAG_REQUEST] ++ ws ++
        [MBOX_TAG_NULL], w < 256 ^ 4 := by
    intro ws hws hlen
    simp only [List.forall_mem_append, List.forall_mem_cons, List.not_mem_nil, false_implies,
      implies_true, and_true]
    refine ⟨⟨⟨by omega, by decide, htag, by omega, by decide⟩, hws⟩, by decide⟩
  have heq := (fields_inj (by decide) (hlt hu hus) (hlt hv hvs)).mp h
  rw [List.append_assoc, List.append_assoc] at heq
  simpa using (List.append_inj heq rfl).2

theorem requestTag_lt {tag : ℕ} (isSet exempt : Bool) (h : tag < 2 ^ 32) :
    requestTag isSet exempt tag < 2 ^ 32 := by
  unfold requestTag
  split
  · exact Nat.or_lt_two_pow h (by decide)
  · exact h

theorem sentWords_lt (l : Line) (len : ℕ) : ∀ w ∈ sentWords l len, w < 2 ^ 32 := by
  have hzero : ∀ n, ∀ w ∈ List.replicate n 0, w < 2 ^ 32 :=
    fun n w hw => (List.mem_replicate.mp hw).2 ▸ Nat.two_pow_pos 32
  unfold sentWords
  split
  · exact hzero len
  · exact List.forall_mem_cons.mpr ⟨value_lt l.name, hzero (len - 1)⟩

theorem payload_lt (l : Line) (len : ℕ) : ∀ w ∈ payload len l.words, w < 2 ^ 32 := by
  simp only [payload, Line.words, List.forall_mem_append, List.forall_mem_map]
  exact ⟨fun a _ => value_lt a.text, fun w hw => (List.mem_replicate.mp hw).2 ▸ Nat.two_pow_pos 32⟩

/-- What is sent is what is meant, if the arguments are what the loop makes of them. -/
theorem sent_eq_iff (l : Line) {tag len : ℕ} {exempt : Bool} (h : Names l.name tag exempt len)
    (hn : l.args.length ≤ 256) :
    message (requestTag l.isSet exempt tag) (sentWords l len) =
        message (requestTag l.isSet exempt tag) (payload len l.words) ↔
      Unread l len := by
  obtain ⟨hpos, hle, htag⟩ := h.bounds
  have hlen : l.words.length = l.args.length := List.length_map _
  rw [← sentWords_eq_iff l hpos]
  refine message_inj (requestTag_lt _ _ htag) (sentWords_lt l len) (payload_lt l len) ?_ ?_
  · unfold sentWords
    split <;> simp <;> omega
  · rw [payload, List.length_append, List.length_replicate]
    omega

/-- **Main.**  The one message that is meant is sent, and all accesses are inside, exactly if the
channel takes a message and the arguments are what the loop makes of them. -/
theorem argument_requests_iff (fw : Firmware) (fuel : ℕ) (l : Line) {tag len : ℕ} {exempt : Bool}
    (h : Names l.name tag exempt len) (hn : l.args.length ≤ 256) (s : State) :
    (((argument fw fuel l.text).run s).result.2.sent =
        s.sent ++ [message (requestTag l.isSet exempt tag) (payload len l.words)] ∧
      Safe sizes ((argument fw fuel l.text).run s)) ↔ Room fw s.reads ∧ Unread l len := by
  obtain ⟨hsafe, hsent, hstuck⟩ : Leaves sizes (argument fw fuel l.text) _ s :=
    argument_leaves fuel h
  rw [← sent_eq_iff l h hn, and_iff_left hsafe]
  by_cases hroom : Room fw s.reads
  · rw [hsent hroom, List.append_cancel_left_eq, List.cons.injEq, and_iff_left rfl,
      and_iff_right hroom]
  · rw [hstuck hroom, iff_false_right fun h => hroom h.1]
    simp

/-- Firmware that has room, and answers each message. -/
def ready : Firmware := ⟨fun _ => MBOX_SEND_CHANNEL, fun _ page => page⟩

def start : State := ⟨fun _ => 0, fun _ => 0, 0, [], []⟩

def zero : Argument := ⟨['0'], by decide, by decide⟩

def three : Argument := ⟨['3'], by decide, by decide⟩

theorem names_clockrate : Names "clockrate".toList MBOX_TAG_GET_CLOCKRATE false 2 :=
  @Names.known _ ⟨"clockrate".toList, fmt_u, MBOX_TAG_GET_CLOCKRATE, 2⟩ (by rfl)

theorem room_ready : Room ready start.reads := ⟨0, Nat.zero_le 5000, by decide⟩

/-- `clockrate:0` -/
theorem argument_requests_iff_zero :
    ((argument ready 1 (Line.get "clockrate".toList zero []).text).run start).result.2.sent =
      [message MBOX_TAG_GET_CLOCKRATE [0, 0]] :=
  ((argument_requests_iff ready 1 (.get "clockrate".toList zero []) names_clockrate (by decide)
    start).mpr ⟨room_ready, .inr ⟨by decide, by decide⟩⟩).1

/-- `clockrate:3`, for the clock of the cores, is sent as `clockrate:0`. -/
theorem clockrate_three :
    ((argument ready 1 (Line.get "clockrate".toList three []).text).run start).result.2.sent ≠
      [message MBOX_TAG_GET_CLOCKRATE [3, 0]] := by
  have hsent := (argument_leaves (s := start) 1 (l := .get "clockrate".toList three [])
    names_clockrate).final.1 room_ready
  intro h
  rcases (sent_eq_iff (.get "clockrate".toList three []) names_clockrate (by decide)).mp
    (List.cons.inj (hsent.symm.trans h)).1 with hnone | ⟨-, hwords⟩
  · exact absurd hnone (List.cons_ne_nil _ _)
  · exact absurd hwords (by decide)

end Mbox
