import RpiBsp.Startup.Asinfo.Table
import RpiBsp.Startup.Ram.FreeList

/-!
# Startup — RAM — `sysram` follows `ram_list`

From `add_sysram` on, free RAM is recorded twice: in `ram_list`, as half-open ranges, and in the
`"sysram"` entries of the system page, as inclusive ones.  `alloc_ram` cuts both.

The loop over the section edits and appends to the table it scans.  `Ordered` is what it keeps, and
`work` bounds what it has left to do: an entry it splits counts double, and the part it appends is
not split again.

* `allocSysram_spec` — the loop takes the request out of the `"sysram"` entries, or crashes;
* `sysram_follows_ram_list` — after every call the two views are one, if no entry was named
  `"sysram"` before `add_sysram`, and every entry is owned by an earlier one;
* `owned_entry_cut` — otherwise an entry of another name can be cut, as one that a `"sysram"` entry
  owns counts as one of them.
-/

namespace Startup

open Support

/-! ### The `sysram` entries -/

def AsinfoEntry.range (e : AsinfoEntry) : Set ℕ := Set.Icc e.start e.end_

/-- The bytes of the `"sysram"` entries. -/
def sysramBytes (L : List AsinfoEntry) : Set ℕ := {b | ∃ e ∈ L, e.name = "sysram" ∧ b ∈ e.range}

/-- The `"sysram"` entries are pairwise disjoint. -/
def SysramApart (L : List AsinfoEntry) : Prop :=
  L.Pairwise fun a b => a.name = "sysram" → b.name = "sysram" → Disjoint a.range b.range

/-- No `"sysram"` entry is empty. -/
def SysramProper (L : List AsinfoEntry) : Prop :=
  ∀ e ∈ L, e.name = "sysram" → e.start ≤ e.end_

/-- Every entry of another name is where it was, with its start, end, owner and name. -/
def OthersKept (L L' : List AsinfoEntry) : Prop :=
  ∀ (i : ℕ) (e : AsinfoEntry), L[i]? = some e → e.name ≠ "sysram" →
    ∃ e', L'[i]? = some e' ∧ e'.start = e.start ∧ e'.end_ = e.end_ ∧ e'.owner = e.owner ∧
      e'.name = e.name

theorem OthersKept.refl (L : List AsinfoEntry) : OthersKept L L :=
  fun _ e he _ => ⟨e, he, rfl, rfl, rfl, rfl⟩

theorem OthersKept.trans {L₁ L₂ L₃ : List AsinfoEntry} (h₁ : OthersKept L₁ L₂)
    (h₂ : OthersKept L₂ L₃) : OthersKept L₁ L₃ := by
  intro i e he hne
  obtain ⟨e₂, he₂, hs, hn, ho, hname⟩ := h₁ i e he hne
  obtain ⟨e₃, he₃, hs', hn', ho', hname'⟩ := h₂ i e₂ he₂ (hname ▸ hne)
  exact ⟨e₃, he₃, hs'.trans hs, hn'.trans hn, ho'.trans ho, hname'.trans hname⟩

structure Ordered (L : List AsinfoEntry) : Prop where
  rooted : Rooted L
  proper : SysramProper L
  word : ∀ e ∈ L, e.name = "sysram" → e.end_ < 2 ^ 64
  apart : SysramApart L

/-! ### Replacing one entry -/

section Replace

variable {P Q X : List AsinfoEntry} {e e' : AsinfoEntry}

theorem getElem?_replace {i : ℕ} (hi : i ≠ P.length) {f : AsinfoEntry}
    (h : (P ++ e :: Q)[i]? = some f) : (P ++ e' :: Q ++ X)[i]? = some f := by
  rw [List.append_assoc]
  rcases Nat.lt_or_ge i P.length with hlt | hge
  · rw [List.getElem?_append_left hlt] at h ⊢
    exact h
  · obtain ⟨k, rfl⟩ : ∃ k, i = P.length + (k + 1) := ⟨i - P.length - 1, by omega⟩
    rw [List.getElem?_append_right (by omega), Nat.add_sub_cancel_left,
      List.getElem?_cons_succ] at h
    rw [List.getElem?_append_right (by omega), Nat.add_sub_cancel_left, List.cons_append,
      List.getElem?_cons_succ, List.getElem?_append_left (List.getElem?_eq_some_iff.mp h).1]
    exact h

/-- The entry found is replaced by a part of it, and the rest of it may be appended. -/
structure Recut (e e' : AsinfoEntry) (X : List AsinfoEntry) : Prop where
  name : e'.name = e.name
  owner : e'.owner = e.owner
  proper : e'.start ≤ e'.end_
  sub : e'.range ⊆ e.range
  new : ∀ x ∈ X, x.name = "sysram" ∧ x.start ≤ x.end_ ∧ x.range ⊆ e.range ∧
    Disjoint e'.range x.range
  single : X.Pairwise fun a b => Disjoint a.range b.range

theorem OthersKept.replace (he : e.name = "sysram") :
    OthersKept (P ++ e :: Q) (P ++ e' :: Q ++ X) := by
  intro i f hf hne
  by_cases hi : i = P.length
  · -- The entry at this place is the one that was found.
    rw [hi, List.getElem?_append_right le_rfl, Nat.sub_self, List.getElem?_cons_zero] at hf
    cases hf
    exact absurd he hne
  · exact ⟨f, getElem?_replace hi hf, rfl, rfl, rfl, rfl⟩

theorem Rooted.replace (h : Rooted (P ++ e :: Q)) (he : e.name = "sysram")
    (hc : Recut e e' X) : Rooted (P ++ e' :: Q ++ X) := by
  intro i f hf hne o ho
  -- An entry of another name was there before, and so was its owner.
  have hold : (P ++ e :: Q)[i]? = some f := by
    by_cases hi : i = P.length
    · rw [hi, List.append_assoc, List.getElem?_append_right le_rfl, Nat.sub_self,
        List.cons_append, List.getElem?_cons_zero] at hf
      cases hf
      exact absurd (hc.name.trans he) hne
    · have hlt : i < (P ++ e :: Q).length := by
        by_contra hge
        have hmem : f ∈ X := by
          rw [List.getElem?_append_right (by simpa using hge)] at hf
          exact List.mem_of_getElem? hf
        exact hne (hc.new f hmem).1
      have hg : (P ++ e :: Q)[i]? = some (P ++ e :: Q)[i] := List.getElem?_eq_getElem hlt
      rw [getElem?_replace hi hg] at hf
      rw [hg, ← hf]
  obtain ⟨own, hown, hown'⟩ := h i f hold hne o ho
  refine ⟨own, getElem?_replace ?_ hown, hown'⟩
  rintro rfl
  rw [List.getElem?_append_right le_rfl, Nat.sub_self, List.getElem?_cons_zero] at hown
  cases hown
  exact hown' he

theorem SysramProper.replace (h : SysramProper (P ++ e :: Q)) (hc : Recut e e' X) :
    SysramProper (P ++ e' :: Q ++ X) := by
  intro f hf hn
  simp only [List.mem_append, List.mem_cons] at hf
  rcases hf with (hf | rfl | hf) | hf
  · exact h f (by simp [hf]) hn
  · exact hc.proper
  · exact h f (by simp [hf]) hn
  · exact (hc.new f hf).2.1

theorem SysramApart.replace (h : SysramApart (P ++ e :: Q)) (he : e.name = "sysram")
    (hc : Recut e e' X) : SysramApart (P ++ e' :: Q ++ X) := by
  simp only [SysramApart, List.pairwise_append, List.pairwise_cons, List.mem_append,
    List.mem_cons] at h ⊢
  obtain ⟨hP, ⟨heQ, hQ⟩, hPQ⟩ := h
  have hPe : ∀ p ∈ P, p.name = "sysram" → Disjoint p.range e.range :=
    fun p hp hn => hPQ p hp e (.inl rfl) hn he
  refine ⟨⟨hP, ⟨fun q hq _ hn => (heQ q hq he hn).mono_left hc.sub, hQ⟩, ?_⟩, ?_, ?_⟩
  · rintro p hp q (rfl | hq) hn hn'
    · exact (hPe p hp hn).mono_right hc.sub
    · exact hPQ p hp q (.inr hq) hn hn'
  · exact hc.single.imp fun hd _ _ => hd
  · rintro p (hp | rfl | hq) x hx hn -
    · exact (hPe p hp hn).mono_right (hc.new x hx).2.2.1
    · exact (hc.new x hx).2.2.2
    · exact ((heQ p hq he hn).mono_left (hc.new x hx).2.2.1).symm

theorem Ordered.replace (h : Ordered (P ++ e :: Q)) (he : e.name = "sysram")
    (hc : Recut e e' X) : Ordered (P ++ e' :: Q ++ X) := by
  refine ⟨h.rooted.replace he hc, h.proper.replace hc, ?_, h.apart.replace he hc⟩
  -- A part of an entry ends in it.
  have hword := h.word e (by simp) he
  intro f hf hn
  simp only [List.mem_append, List.mem_cons] at hf
  rcases hf with (hf | rfl | hf) | hf
  · exact h.word f (by simp [hf]) hn
  · exact (hc.sub ⟨hc.proper, le_rfl⟩).2.trans_lt hword
  · exact h.word f (by simp [hf]) hn
  · obtain ⟨-, hp, hsub, -⟩ := hc.new f hf
    exact (hsub ⟨hp, le_rfl⟩).2.trans_lt hword

end Replace

/-! ### The loop -/

/-- How often the loop can come across the entry and what it leaves of it. -/
def work (addr end_ : ℕ) (e : AsinfoEntry) : ℕ := if e.start < addr ∧ end_ < e.end_ then 2 else 1

theorem work_pos (addr end_ : ℕ) (e : AsinfoEntry) : 1 ≤ work addr end_ e := by
  unfold work
  split_ifs <;> omega

theorem sum_work_le (addr end_ : ℕ) (L : List AsinfoEntry) :
    (L.map (work addr end_)).sum ≤ 2 * L.length := by
  induction L with
  | nil => simp
  | cons e L ih =>
      have : work addr end_ e ≤ 2 := by unfold work; split_ifs <;> omega
      simp only [List.map_cons, List.sum_cons, List.length_cons]
      omega

/-- What one turn of the loop leaves of the entry it found. -/
structure CutBy (addr end_ : ℕ) (e e' : AsinfoEntry) (X : List AsinfoEntry) : Prop
    extends Recut e e' X where
  bytes : ∀ b, (b ∈ e'.range ∨ ∃ x ∈ X, b ∈ x.range) ↔ b ∈ e.range ∧ b ∉ Set.Icc addr end_
  less : (X.map (work addr end_)).sum < work addr end_ e

section Loop

variable {addr end_ : ℕ}

/-- The request covers the start of the entry. -/
theorem cutBy_start {e : AsinfoEntry} (hm : e.meets addr end_ = true) (h₁ : addr ≤ end_ + 1)
    (hs : addr ≤ e.start) (hend : end_ < e.end_) :
    CutBy addr end_ e { e with start := end_ + 1 } [] := by
  simp only [AsinfoEntry.meets, Bool.or_eq_true, Bool.and_eq_true, decide_eq_true_eq] at hm
  refine ⟨⟨rfl, rfl, hend, ?_, by simp, .nil⟩, ?_, work_pos ..⟩
  · intro b hb
    simp only [AsinfoEntry.range, Set.mem_Icc] at hb ⊢
    omega
  · intro b
    simp only [AsinfoEntry.range, Set.mem_Icc, List.not_mem_nil, false_and, exists_false, or_false]
    omega

/-- The request starts inside the entry and covers its end. -/
theorem cutBy_end {e : AsinfoEntry} (hm : e.meets addr end_ = true) (h₁ : addr ≤ end_ + 1)
    (hs : e.start < addr) (hend : e.end_ ≤ end_) :
    CutBy addr end_ e { e with end_ := addr - 1 } [] := by
  simp only [AsinfoEntry.meets, Bool.or_eq_true, Bool.and_eq_true, decide_eq_true_eq] at hm
  refine ⟨⟨rfl, rfl, by simp only; omega, ?_, by simp, .nil⟩, ?_, work_pos ..⟩
  · intro b hb
    simp only [AsinfoEntry.range, Set.mem_Icc] at hb ⊢
    omega
  · intro b
    simp only [AsinfoEntry.range, Set.mem_Icc, List.not_mem_nil, false_and, exists_false, or_false]
    omega

/-- The request lies inside the entry, which is split. -/
theorem cutBy_split {e : AsinfoEntry} (h₁ : addr ≤ end_ + 1) (hs : e.start < addr)
    (hend : end_ < e.end_) :
    CutBy addr end_ e { e with end_ := addr - 1 }
      [⟨end_ + 1, e.end_, e.owner, "sysram", {}⟩] := by
  refine ⟨⟨rfl, rfl, by simp only; omega, ?_, ?_, by simp⟩, ?_, ?_⟩
  · intro b hb
    simp only [AsinfoEntry.range, Set.mem_Icc] at hb ⊢
    omega
  · intro x hx
    obtain rfl := List.mem_singleton.mp hx
    refine ⟨rfl, hend, fun b hb => ?_, Set.disjoint_left.mpr fun b hb hb' => ?_⟩
    · simp only [AsinfoEntry.range, Set.mem_Icc] at hb ⊢
      omega
    · simp only [AsinfoEntry.range, Set.mem_Icc] at hb hb'
      omega
  · intro b
    simp only [AsinfoEntry.range, Set.mem_Icc, List.mem_singleton, exists_eq_left]
    omega
  · -- The new entry starts after the request, so it will not be split.
    have hnew : ¬ (end_ + 1 < addr ∧ end_ < e.end_) := by omega
    simp only [List.map_cons, List.map_nil, List.sum_singleton, work, if_neg hnew]
    rw [if_pos ⟨hs, hend⟩]
    decide

/-- One turn of the loop. -/
theorem allocSysram_step (h₁ : addr ≤ end_ + 1) (h₂ : end_ + 1 < 2 ^ 64) {fuel : ℕ}
    {off : Option ℕ} {t : Asinfo} {P Q : List AsinfoEntry} {e : AsinfoEntry}
    (hE : t.cores = P ++ e :: Q) (hn : e.name = "sysram") (he : e.start ≤ e.end_)
    (hm : e.meets addr end_ = true)
    (hfind : as_find_containing t.entries off addr end_ "sysram" = some P.length) :
    allocSysram addr end_ (fuel + 1) off t = .error .whole_sysram ∨
    allocSysram addr end_ (fuel + 1) off t = .error .syspage_overflow ∨
    ∃ e' X t', allocSysram addr end_ (fuel + 1) off t =
        allocSysram addr end_ fuel (some P.length) t' ∧
      t'.cores = P ++ e' :: Q ++ X ∧ CutBy addr end_ e e' X := by
  obtain ⟨as, has, rfl⟩ : ∃ as, t.entries[P.length]? = some as ∧ as.core = e := by
    have : t.cores[P.length]? = some e := by simp [hE]
    simpa [Asinfo.cores] using this
  simp only [AsinfoEntry.core_name, AsinfoEntry.core_start, AsinfoEntry.core_end_] at hn he
  rw [allocSysram, hfind]
  simp only [has]
  by_cases hs : addr ≤ as.start
  · have hs' : (if addr < as.start then addr else as.start) = addr := by split_ifs <;> omega
    simp only [hs', true_and, if_true]
    by_cases hend : as.end_ ≤ end_
    · left
      rw [if_pos (by split_ifs <;> omega)]
    · right; right
      rw [if_neg (by split_ifs <;> omega)]
      refine ⟨_, [], _, rfl, ?_, cutBy_start hm h₁ hs (by simpa using hend)⟩
      rw [addW_of_lt h₂, List.append_nil]
      exact map_core_modify_at hE rfl fun _ => rfl
  · have hs' : (if addr < as.start then addr else as.start) = as.start := by split_ifs <;> omega
    have hne : addr ≠ as.start := by omega
    simp only [hs', hne, false_and, if_false]
    rw [subW_of_le (by omega) (by omega)]
    -- The end of the entry is cut off, with what the request covers.
    set t₁ : Asinfo := { t with entries := t.entries.modify P.length fun as =>
      { as with end_ := addr - 1 } }
    have hcut : t₁.cores = P ++ { as.core with end_ := addr - 1 } :: Q :=
      map_core_modify_at hE rfl fun _ => rfl
    by_cases hend : as.end_ ≤ end_
    · right; right
      rw [if_neg (by split_ifs <;> omega)]
      refine ⟨_, [], _, rfl, ?_, cutBy_end hm h₁ (by simpa using hs) hend⟩
      rw [List.append_nil]
      exact hcut
    · right
      have hmax : (if as.end_ < end_ then end_ else as.end_) = as.end_ := if_neg (by omega)
      rw [hmax, if_pos (by omega), addW_of_lt h₂]
      have hio : AS_ATTR_RAM.overlay_io = false := rfl
      rcases as_add_cores (end_ + 1) as.end_ "sysram" as.owner t₁ hio with
        hfull | ⟨t', ht', hcores⟩
      · left
        rw [hfull]
        rfl
      · right
        rw [ht']
        refine ⟨_, _, t', rfl, ?_, cutBy_split h₁ (by simpa using hs) (by simpa using hend)⟩
        rw [hcores, hcut]
        rfl

/-- An entry that a search passes over keeps clear of the request. -/
theorem disjoint_of_not_stops {L : List AsinfoEntry} (h : Ordered L) {e : AsinfoEntry} (he : e ∈ L)
    (hn : e.name = "sysram") (hs : ¬ Stops L addr end_ "sysram" e) :
    Disjoint e.range (Set.Icc addr end_) := by
  have hm : ¬ e.meets addr end_ = true := fun hm => hs ⟨(h.rooted.match_name_iff he _).mpr hn, hm⟩
  have hp := h.proper e he hn
  simp only [AsinfoEntry.meets, Bool.or_eq_true, Bool.and_eq_true, decide_eq_true_eq] at hm
  refine Set.disjoint_left.mpr fun b hb hb' => hm ?_
  simp only [AsinfoEntry.range, Set.mem_Icc] at hb hb'
  omega

/-- A turn of the loop loses no byte outside the request. -/
theorem sysramBytes_replace {P Q X : List AsinfoEntry} {e e' : AsinfoEntry}
    (hn : e.name = "sysram") (hc : CutBy addr end_ e e' X) :
    sysramBytes (P ++ e' :: Q ++ X) \ Set.Icc addr end_ =
      sysramBytes (P ++ e :: Q) \ Set.Icc addr end_ := by
  ext b
  simp only [Set.mem_sdiff, sysramBytes, Set.mem_ofPred_eq]
  refine and_congr_left fun hb => ⟨?_, ?_⟩
  · rintro ⟨f, hf, hfn, hfb⟩
    simp only [List.mem_append, List.mem_cons] at hf
    rcases hf with (hf | rfl | hf) | hf
    · exact ⟨f, by simp [hf], hfn, hfb⟩
    · exact ⟨e, by simp, hn, hc.sub hfb⟩
    · exact ⟨f, by simp [hf], hfn, hfb⟩
    · exact ⟨e, by simp, hn, (hc.new f hf).2.2.1 hfb⟩
  · rintro ⟨f, hf, hfn, hfb⟩
    simp only [List.mem_append, List.mem_cons] at hf
    rcases hf with hf | rfl | hf
    · exact ⟨f, by simp [hf], hfn, hfb⟩
    · rcases (hc.bytes b).mpr ⟨hfb, hb⟩ with hb' | ⟨x, hx, hb'⟩
      · exact ⟨e', by simp, hc.name.trans hn, hb'⟩
      · exact ⟨x, by simp [hx], (hc.new x hx).1, hb'⟩
    · exact ⟨f, by simp [hf], hfn, hfb⟩

/-- The loop over the section, from where it stands: `D` is behind it and clear of the request,
`R` is ahead. -/
theorem allocSysram_spec (h₁ : addr ≤ end_ + 1) (h₂ : end_ + 1 < 2 ^ 64) : ∀ (fuel : ℕ)
    (off : Option ℕ) (t : Asinfo) (D R : List AsinfoEntry), t.cores = D ++ R →
    after off = D.length → Ordered t.cores →
    (∀ e ∈ D, e.name = "sysram" → Disjoint e.range (Set.Icc addr end_)) →
    (R.map (work addr end_)).sum < fuel →
    allocSysram addr end_ fuel off t = .error .whole_sysram ∨
    allocSysram addr end_ fuel off t = .error .syspage_overflow ∨
    ∃ t', allocSysram addr end_ fuel off t = .ok t' ∧ Ordered t'.cores ∧
      sysramBytes t'.cores = sysramBytes t.cores \ Set.Icc addr end_ ∧
      OthersKept t.cores t'.cores
  | 0, _, _, _, _, _, _, _, _, hf => absurd hf (Nat.not_lt_zero _)
  | fuel + 1, off, t, D, R, hE, ho, hord, hD, hf => by
      cases hfind : as_find_containing t.entries off addr end_ "sysram" with
      | none =>
          right; right
          refine ⟨t, by rw [allocSysram, hfind], hord, ?_, .refl _⟩
          have hclear : Disjoint (sysramBytes t.cores) (Set.Icc addr end_) := by
            refine Set.disjoint_left.mpr ?_
            rintro b ⟨e, he, hn, hb⟩ hb'
            rcases List.mem_append.mp (hE ▸ he) with heD | heR
            · exact Set.disjoint_left.mp (hD e heD hn) hb hb'
            · have hs := find_none hE ho hfind e heR
              exact Set.disjoint_left.mp (disjoint_of_not_stops hord he hn hs) hb hb'
          exact (Disjoint.sdiff_eq_left hclear).symm
      | some o =>
          obtain ⟨S, e, Q, rfl, rfl, hs, hS⟩ := find_some hE ho hfind
          have hE' : t.cores = (D ++ S) ++ e :: Q := by rw [hE, List.append_assoc]
          have he : e ∈ t.cores := by simp [hE']
          have hn := (hord.rooted.match_name_iff he _).mp hs.1
          rw [← List.length_append] at hfind
          rcases allocSysram_step h₁ h₂ hE' hn (hord.proper e he hn) hs.2 hfind with
            hr | hr | ⟨e', X, t', hr, hcores, hcut⟩
          · exact .inl hr
          · exact .inr (.inl hr)
          · -- The entry and what was passed over are behind the loop now.
            rw [hE'] at hord
            have hord' : Ordered t'.cores := hcores ▸ hord.replace hn hcut.toRecut
            have hD' : ∀ f ∈ D ++ S ++ [e'], f.name = "sysram" →
                Disjoint f.range (Set.Icc addr end_) := by
              intro f hf hfn
              simp only [List.mem_append, List.mem_singleton] at hf
              rcases hf with (hf | hf) | rfl
              · exact hD f hf hfn
              · rw [← hE'] at hord
                exact disjoint_of_not_stops hord (by simp [hE', hf]) hfn (hS f hf)
              · exact Set.disjoint_left.mpr fun b hb => ((hcut.bytes b).mp (.inl hb)).2
            have hless : ((Q ++ X).map (work addr end_)).sum < fuel := by
              have := hcut.less
              simp only [List.map_append, List.map_cons, List.sum_append, List.sum_cons] at hf ⊢
              omega
            rw [hr]
            have hE'' : t'.cores = (D ++ S ++ [e']) ++ (Q ++ X) := by simp [hcores]
            have ho' : after (some (D ++ S).length) = (D ++ S ++ [e']).length := by
              simp only [after, List.length_append, List.length_singleton]
            rcases allocSysram_spec h₁ h₂ fuel _ t' _ _ hE'' ho' hord' hD' hless with
              hr' | hr' | ⟨t'', hr', hord'', hb, hkept⟩
            · exact .inl hr'
            · exact .inr (.inl hr')
            · refine .inr (.inr ⟨t'', hr', hord'', ?_, ?_⟩)
              · rw [hb, hcores, hE', sysramBytes_replace hn hcut]
              · refine .trans ?_ hkept
                rw [hE', hcores]
                exact .replace hn

end Loop

/-! ### `alloc_ram` -/

/-- A request at an address, of any size: the loop takes it out, or crashes.  At 0 with size 0 the
inclusive end wraps, and any `"sysram"` entry at all crashes the loop. -/
theorem allocSysram_request {addr size : ℕ} (hw : addr + size < 2 ^ 64) {t t' : Asinfo}
    (hord : Ordered t.cores)
    (h : allocSysram addr (subW 64 (addW 64 addr size) 1) (2 * t.entries.length + 1) none t =
      .ok t') :
    Ordered t'.cores ∧ sysramBytes t'.cores = sysramBytes t.cores \ Set.Ico addr (addr + size) ∧
      OthersKept t.cores t'.cores := by
  rw [addW_of_lt hw] at h
  rcases Nat.eq_zero_or_pos (addr + size) with hz | hpos
  · obtain ⟨rfl, rfl⟩ := Nat.add_eq_zero_iff.mp hz
    rw [show subW 64 (0 + 0) 1 = 2 ^ 64 - 1 by decide] at h
    cases hfind : as_find_containing t.entries none 0 (2 ^ 64 - 1) "sysram" with
    | none =>
        rw [allocSysram, hfind] at h
        cases h
        exact ⟨hord, by simp, .refl _⟩
    | some o =>
        obtain ⟨S, e, Q, hE, rfl, hs, -⟩ := find_some (List.nil_append t.cores).symm rfl hfind
        have he : e ∈ t.cores := by simp [hE]
        have hword := hord.word e he ((hord.rooted.match_name_iff he _).mp hs.1)
        obtain ⟨as, has, rfl⟩ : ∃ as, t.entries[S.length]? = some as ∧ as.core = e := by
          have : t.cores[S.length]? = some e := by simp [hE]
          simpa [Asinfo.cores] using this
        rw [AsinfoEntry.core_end_] at hword
        simp only [allocSysram, hfind, List.length_nil, Nat.zero_add, has] at h
        rw [if_pos ⟨by split_ifs <;> omega, by split_ifs <;> omega⟩] at h
        cases h
  · rw [subW_of_le hpos hw] at h
    have hsum : (t.cores.map (work addr (addr + size - 1))).sum < 2 * t.entries.length + 1 := by
      have := sum_work_le addr (addr + size - 1) t.cores
      rw [show t.cores.length = t.entries.length by simp [Asinfo.cores]] at this
      omega
    rcases allocSysram_spec (show addr ≤ addr + size - 1 + 1 by omega) (by omega) _ none t []
      t.cores rfl rfl hord (by simp) hsum with hr | hr | ⟨t'', hr, hord', hb, hkept⟩
    · rw [hr] at h; cases h
    · rw [hr] at h; cases h
    · rw [hr] at h
      cases h
      refine ⟨hord', ?_, hkept⟩
      rw [hb]
      congr 1
      ext b
      simp only [Set.mem_Icc, Set.mem_Ico]
      omega

/-- What holds between calls once `add_sysram` has been called: the table is in order, and the two
views of free RAM are one. -/
structure RamState.Follows (s : RamState) : Prop where
  inited : s.inited = true
  sysram : s.sysram_added = true
  rep : ∃ l, s.ram.Rep l
  ordered : Ordered s.asinfo.cores
  bytes : sysramBytes s.asinfo.cores = s.ram.bytes

theorem allocAt_follows {s s' : RamState} (h : s.Follows) {addr size : ℕ}
    (hw : addr + size < 2 ^ 64) (hs' : allocAt addr size s = .ok s') :
    s'.Follows ∧ OthersKept s.asinfo.cores s'.asinfo.cores := by
  obtain ⟨t, ht, hs'⟩ := bind_eq_ok.mp hs'
  obtain ⟨l, hl⟩ := h.rep
  rw [if_pos h.sysram] at hs'
  obtain ⟨asinfo, has, hs'⟩ := bind_eq_ok.mp hs'
  cases hs'
  obtain ⟨hord, hb, hkept⟩ := allocSysram_request hw h.ordered has
  rcases allocFrom_rep hl hw with ⟨-, he⟩ | ⟨t', ht', hR⟩
  · rw [he] at ht; cases ht
  · rw [ht'] at ht
    cases ht
    refine ⟨⟨h.inited, h.sysram, ⟨_, hR⟩, hord, ?_⟩, hkept⟩
    rw [hb, h.bytes, hl.bytes, hR.bytes, cover_cutAll]

/-- Whatever the alignment, a range that `find_ram` comes back with lies below the end of some
RAM. -/
theorem fix_size_le {s e as ae s' e' : ℕ} (h : fix_size s e as ae = some (s', e')) : e' ≤ e := by
  unfold fix_size at h
  split_ifs at h <;> cases h <;> omega

theorem avoidFrom_le {t : AvoidList} : ∀ (fuel a s e s' e' : ℕ),
    avoidFrom t fuel a (s, e) = .ok (some (s', e')) → e' ≤ e
  | 0, _, _, _, _, _, h => by cases h
  | fuel + 1, a, s, e, s', e', h => by
      rw [avoidFrom] at h
      split_ifs at h with hend
      · cases h; exact le_rfl
      · cases hfix : fix_size s e (t.slots a).start (t.slots a).end_ with
        | none => simp [hfix] at h
        | some c =>
            obtain ⟨s₁, e₁⟩ := c
            simp only [hfix] at h
            exact (avoidFrom_le fuel (a + 1) s₁ e₁ s' e' h).trans (fix_size_le hfix)

theorem fitRange_le {range_start range_end size align colour mask s e addr : ℕ}
    (h : fitRange range_start range_end size align colour mask s e = some addr) :
    addr + size ≤ e := by
  simp only [fitRange] at h
  split_ifs at h <;> cases h <;> omega

theorem findFrom_lt {ram : RamList} {avoid : AvoidList}
    {range_start range_end size align colour mask : ℕ} : ∀ (fuel r addr : ℕ),
    findFrom ram avoid range_start range_end size align colour mask fuel r = .ok addr →
    addr = NULL_PADDR ∨ addr + size < 2 ^ 64
  | 0, _, _, h => by cases h
  | fuel + 1, r, addr, h => by
      rw [findFrom] at h
      split_ifs at h with hend
      · cases h; exact .inl rfl
      · obtain ⟨c, hc, h⟩ := bind_eq_ok.mp h
        cases c with
        | none => exact findFrom_lt fuel (r + 1) addr h
        | some c =>
            obtain ⟨s, e⟩ := c
            dsimp only at h
            cases hfit : fitRange range_start range_end size align colour mask s e with
            | none =>
                rw [hfit] at h
                exact findFrom_lt fuel (r + 1) addr h
            | some p =>
                rw [hfit] at h
                cases h
                have h₁ := fitRange_le hfit
                have h₂ := avoidFrom_le _ _ _ _ _ _ hc
                exact .inr ((h₁.trans h₂).trans_lt (addW_lt ..))

/-! ### Calls of `alloc_ram` -/

/-- A call of `alloc_ram`; `addr` may be `NULL_PADDR`. -/
structure AllocCall where
  addr : ℕ
  size : ℕ
  align : ℕ
deriving DecidableEq, Repr

def AllocCall.NonWrapping (c : AllocCall) : Prop := c.addr = NULL_PADDR ∨ c.addr + c.size < 2 ^ 64

/-- The calls one after the other. -/
def runAllocs (cs : List AllocCall) (s : RamState) : Except Crash RamState :=
  cs.foldlM (fun s c => do
    let (_, s) ← alloc_ram c.addr c.size c.align s
    return s) s

theorem alloc_ram_follows {s s' : RamState} (h : s.Follows) {addr size align p : ℕ}
    (hc : addr = NULL_PADDR ∨ addr + size < 2 ^ 64)
    (hs' : alloc_ram addr size align s = .ok (p, s')) :
    s'.Follows ∧ OthersKept s.asinfo.cores s'.asinfo.cores := by
  rw [alloc_ram, if_neg (not_not.mpr h.inited)] at hs'
  by_cases hnull : addr = NULL_PADDR
  · rw [if_pos hnull] at hs'
    obtain ⟨q, hq, hs'⟩ := bind_eq_ok.mp hs'
    by_cases hqn : q = NULL_PADDR
    · rw [if_pos hqn] at hs'
      cases hs'
      exact ⟨h, .refl _⟩
    · rw [if_neg hqn] at hs'
      split_ifs at hs'
      obtain ⟨s₁, hs₁, hs'⟩ := bind_eq_ok.mp hs'
      cases hs'
      exact allocAt_follows h ((findFrom_lt _ _ _ hq).resolve_left hqn) hs₁
  · rw [if_neg hnull] at hs'
    obtain ⟨s₁, hs₁, hs'⟩ := bind_eq_ok.mp hs'
    cases hs'
    exact allocAt_follows h (hc.resolve_left hnull) hs₁

theorem runAllocs_follows {s s' : RamState} (h : s.Follows) {cs : List AllocCall}
    (hcs : ∀ c ∈ cs, c.NonWrapping) (hs' : runAllocs cs s = .ok s') :
    s'.Follows ∧ OthersKept s.asinfo.cores s'.asinfo.cores := by
  induction cs generalizing s with
  | nil => cases hs'; exact ⟨h, .refl _⟩
  | cons c cs ih =>
      rw [runAllocs, List.foldlM_cons] at hs'
      obtain ⟨s₁, hs₁, hs'⟩ := bind_eq_ok.mp hs'
      obtain ⟨⟨p, s₁⟩, hp, hs₁⟩ := bind_eq_ok.mp hs₁
      cases hs₁
      obtain ⟨h₁, hk₁⟩ := alloc_ram_follows h (hcs c (by simp)) hp
      obtain ⟨h', hk'⟩ := ih h₁ (fun d hd => hcs d (by simp [hd])) hs'
      exact ⟨h', hk₁.trans hk'⟩

/-! ### `add_sysram` -/

/-- Every entry is owned by an earlier one, as `as_add` leaves it when it is given the offset of an
entry. -/
def OwnersEarlier (L : List AsinfoEntry) : Prop :=
  ∀ (i : ℕ) (e : AsinfoEntry), L[i]? = some e → ∀ o, e.owner = some o → o < i

theorem addPieces_cores {attr : AsAttr} {name : String} (hio : attr.overlay_io = false) :
    ∀ (list : List AsRange) (start_off off : Option ℕ) (t : Asinfo)
    {r : Option ℕ × Option ℕ × Asinfo},
    addPieces attr name list start_off off t = .ok r →
    ∃ X, r.2.2.cores = t.cores ++ X ∧ ∀ x ∈ X, x.name = name ∧ x.start ≤ x.end_
  | [], _, _, t, _, h => by
      cases h
      exact ⟨[], by simp, by simp⟩
  | piece :: rest, start_off, off, t, r, h => by
      rw [addPieces] at h
      split_ifs at h with hle
      · rcases as_add_cores piece.start piece.end_ name (some piece.owner) t hio with
          hfull | ⟨t', ht', hcores⟩
        · rw [hfull] at h; cases h
        · rw [ht'] at h
          obtain ⟨X, hX, hall⟩ := addPieces_cores hio rest _ _ t' h
          refine ⟨_ :: X, by rw [hX, hcores, List.append_assoc]; rfl, ?_⟩
          intro x hx
          rcases List.mem_cons.mp hx with rfl | hx
          · exact ⟨rfl, hle⟩
          · exact hall x hx
      · exact addPieces_cores hio rest _ _ t h

theorem as_add_containing_cores {start end_ : ℕ} {attr : AsAttr} {name container : String}
    (hio : attr.overlay_io = false) {t : Asinfo} {r : Option ℕ × Asinfo}
    (h : as_add_containing start end_ attr name container t = .ok r) :
    ∃ X, r.2.cores = t.cores ++ X ∧ ∀ x ∈ X, x.name = name ∧ x.start ≤ x.end_ := by
  obtain ⟨⟨first, last, t'⟩, ht', h⟩ := bind_eq_ok.mp h
  obtain ⟨X, hX, hall⟩ := addPieces_cores rfl _ _ _ t ht'
  refine ⟨X, ?_, hall⟩
  cases first with
  | none => cases h; exact hX
  | some first =>
      cases last with
      | none => cases h; exact hX
      | some last =>
          simp only [hio] at h
          cases h
          rw [← hX, Asinfo.cores, Asinfo.cores, map_modify_eq]
          exact fun _ => rfl

theorem addSysramFrom_cores {ram : RamList} : ∀ (fuel r : ℕ) (t : Asinfo) {t' : Asinfo},
    addSysramFrom ram fuel r t = .ok t' →
    ∃ X, t'.cores = t.cores ++ X ∧ ∀ x ∈ X, x.name = "sysram" ∧ x.start ≤ x.end_
  | 0, _, _, _, h => by cases h
  | fuel + 1, r, t, t', h => by
      rw [addSysramFrom] at h
      split_ifs at h with hend
      · cases h
        exact ⟨[], by simp, by simp⟩
      · obtain ⟨⟨o, t₁⟩, ht₁, h⟩ := bind_eq_ok.mp h
        obtain ⟨X, hX, hall⟩ := as_add_containing_cores rfl ht₁
        obtain ⟨Y, hY, hall'⟩ := addSysramFrom_cores fuel (r + 1) t₁ h
        refine ⟨X ++ Y, by rw [hY, show t₁.cores = _ from hX, List.append_assoc], ?_⟩
        intro x hx
        exact (List.mem_append.mp hx).elim (hall x) (hall' x)

/-- `add_sysram` puts its entries after all others, so none of these is below one of them. -/
theorem rooted_append {L X : List AsinfoEntry} (hown : OwnersEarlier L)
    (hnone : ∀ e ∈ L, e.name ≠ "sysram") (hX : ∀ x ∈ X, x.name = "sysram") : Rooted (L ++ X) := by
  intro i e he hne o ho
  have hlt : i < L.length := by
    by_contra hge
    rw [List.getElem?_append_right (not_lt.mp hge)] at he
    exact hne (hX e (List.mem_of_getElem? he))
  rw [List.getElem?_append_left hlt] at he
  have holt : o < L.length := (hown i e he o ho).trans hlt
  refine ⟨L[o], ?_, hnone _ (List.getElem_mem holt)⟩
  rw [List.getElem?_append_left holt, List.getElem?_eq_getElem holt]

/-! ### The entries with their attributes -/

theorem sysramBytes_cores (t : Asinfo) : sysramBytes t.cores = sysramBytes t.entries := by
  ext b
  simp [sysramBytes, Asinfo.cores, AsinfoEntry.range]

theorem sysramApart_cores {t : Asinfo} : SysramApart t.cores ↔ SysramApart t.entries :=
  List.pairwise_map

theorem sysramProper_cores {t : Asinfo} : SysramProper t.cores ↔ SysramProper t.entries := by
  simp [SysramProper, Asinfo.cores]

theorem othersKept_of_cores {t t' : Asinfo} (h : OthersKept t.cores t'.cores) :
    OthersKept t.entries t'.entries := by
  intro i e he hne
  obtain ⟨c, hc, h₁, h₂, h₃, h₄⟩ := h i e.core (by simp [Asinfo.cores, he]) hne
  obtain ⟨e', he', rfl⟩ : ∃ e', t'.entries[i]? = some e' ∧ e'.core = c := by
    simpa [Asinfo.cores] using hc
  exact ⟨e', he', h₁, h₂, h₃, h₄⟩

/-- **`sysram` follows `ram_list`.**  Take the state right after `add_sysram`, in which the
`"sysram"` entries are disjoint and stand for the bytes of `ram_list`.  After whatever non-wrapping
calls of `alloc_ram`, at an address or not, as long as none crashes, they are disjoint and not
empty and stand for the bytes of `ram_list`, and no other entry has changed. -/
theorem sysram_follows_ram_list {s₀ s s' : RamState} (h₀ : s₀.Kept)
    (hown : OwnersEarlier s₀.asinfo.entries)
    (hnone : ∀ e ∈ s₀.asinfo.entries, e.name ≠ "sysram") (hadd : add_sysram s₀ = .ok s)
    (hword : ∀ e ∈ s.asinfo.entries, e.end_ < 2 ^ 64) (hapart : SysramApart s.asinfo.entries)
    (hbytes : sysramBytes s.asinfo.entries = s.ram.bytes) {cs : List AllocCall}
    (hcs : ∀ c ∈ cs, c.NonWrapping) (hs' : runAllocs cs s = .ok s') :
    SysramApart s'.asinfo.entries ∧ SysramProper s'.asinfo.entries ∧
    sysramBytes s'.asinfo.entries = s'.ram.bytes ∧
    OthersKept s.asinfo.entries s'.asinfo.entries := by
  obtain ⟨t, ht, hadd⟩ := bind_eq_ok.mp hadd
  cases hadd
  obtain ⟨X, hX, hall⟩ := addSysramFrom_cores _ _ _ ht
  have hord : Ordered t.cores := by
    refine ⟨?_, ?_, ?_, sysramApart_cores.mpr hapart⟩
    · rw [hX]
      refine rooted_append ?_ (by simpa [Asinfo.cores] using hnone) fun x hx => (hall x hx).1
      intro i e he o ho
      obtain ⟨f, hf, rfl⟩ : ∃ f, s₀.asinfo.entries[i]? = some f ∧ f.core = e := by
        simpa [Asinfo.cores] using he
      exact hown i f hf o ho
    · intro e he hn
      rw [hX] at he
      rcases List.mem_append.mp he with he | he
      · obtain ⟨f, hf, rfl⟩ := List.mem_map.mp he
        exact absurd hn (hnone f hf)
      · exact (hall e he).2
    · intro e he _
      obtain ⟨f, hf, rfl⟩ := List.mem_map.mp he
      exact hword f hf
  have hfol : RamState.Follows { s₀ with asinfo := t, sysram_added := true } :=
    ⟨h₀.inited, rfl, h₀.rep, hord, (sysramBytes_cores t).trans hbytes⟩
  obtain ⟨h', hkept⟩ := runAllocs_follows hfol hcs hs'
  exact ⟨sysramApart_cores.mp h'.ordered.apart, sysramProper_cores.mp h'.ordered.proper,
    (sysramBytes_cores _).symm.trans h'.bytes, othersKept_of_cores hkept⟩

/-- One bank of RAM, before `add_sysram`. -/
def oneBank : RamState where
  inited := true
  ram := ⟨fun r => if r = 0 then ⟨0x1000, 0x8000⟩ else ⟨0, 0⟩, 2 * ENTRY_SIZE⟩
  avoid := ⟨fun _ => ⟨0, 0⟩, 2 * ENTRY_SIZE⟩
  ws_early_next := 0
  temp_syspage := NULL_PADDR
  sysram_added := false
  asinfo := ⟨[⟨0, 2 ^ 40 - 1, none, "memory", {}⟩, ⟨0x1000, 0x8fff, some 0, "ram", {}⟩], 8⟩

/-- A hole in the bank, and a request anywhere. -/
def holeThenAny : List AllocCall := [⟨0x2000, 0x1000, 1⟩, ⟨NULL_PADDR, 0x800, 8⟩]

theorem sysram_follows_hole : ∃ s s', add_sysram oneBank = .ok s ∧
    runAllocs holeThenAny s = .ok s' ∧ SysramApart s'.asinfo.entries ∧
    SysramProper s'.asinfo.entries ∧ sysramBytes s'.asinfo.entries = s'.ram.bytes ∧
    OthersKept s.asinfo.entries s'.asinfo.entries := by
  have hkept : oneBank.Kept := by
    refine ⟨rfl, rfl, [⟨0x1000, 0x9000⟩], ⟨⟨0, 0⟩, rfl, ?_⟩, rfl, by decide,
      normal_singleton (by simp), by simp⟩
    rw [List.map_singleton, List.singleton_append, holds_cons, holds_cons]
    exact ⟨rfl, rfl, Holds.nil _ _⟩
  have hadd : (add_sysram oneBank).toOption.map (fun s => (s.asinfo.entries, s.ram.entries)) =
      some ([⟨0, 2 ^ 40 - 1, none, "memory", {}⟩,
        ⟨0x1000, 0x8fff, some 0, "ram", { kids := true }⟩,
        ⟨0x1000, 0x8fff, some 1, "sysram", { ram := true }⟩], [⟨0x1000, 0x8000⟩]) := by
    decide +kernel
  obtain ⟨s, hs, he⟩ := Option.map_eq_some_iff.mp hadd
  have hs := toOption_eq_some.mp hs
  obtain ⟨hE, hR⟩ := Prod.mk.inj he
  have hrun : ((add_sysram oneBank >>= runAllocs holeThenAny).toOption).isSome := by
    decide +kernel
  obtain ⟨s', hs'⟩ := Option.isSome_iff_exists.mp hrun
  rw [toOption_eq_some, hs] at hs'
  have hs' : runAllocs holeThenAny s = .ok s' := hs'
  refine ⟨s, s', hs, hs', sysram_follows_ram_list hkept ?_ ?_ hs ?_ ?_ ?_ ?_ hs'⟩
  · intro i e he o ho
    match i with
    | 0 => cases he; cases ho
    | 1 => cases he; cases ho; decide
    | i + 2 => cases he
  · simp [oneBank]
  · simp [hE]
  · simp [hE, SysramApart]
  · ext b
    simp [hE, hR, sysramBytes, RamList.bytes, AsinfoEntry.range]
    omega
  · simp [holeThenAny, AllocCall.NonWrapping]

/-- One bank that has its `"sysram"` entry before `add_sysram`, and that owns another one. -/
def ownedBank : RamState where
  inited := true
  ram := ⟨fun r => if r = 0 then ⟨0xa000, 0x1000⟩ else ⟨0, 0⟩, 2 * ENTRY_SIZE⟩
  avoid := ⟨fun _ => ⟨0, 0⟩, 2 * ENTRY_SIZE⟩
  ws_early_next := 0
  temp_syspage := NULL_PADDR
  sysram_added := false
  asinfo := ⟨[⟨0, 2 ^ 40 - 1, none, "memory", {}⟩, ⟨0xa000, 0xafff, some 0, "sysram", {}⟩,
    ⟨0xa000, 0xa7ff, some 1, "dma", {}⟩], 8⟩

/-- The entry that is owned is cut with its owner. -/
theorem owned_entry_cut : ∃ s s', ownedBank.Kept ∧ add_sysram ownedBank = .ok s ∧
    SysramApart s.asinfo.entries ∧ sysramBytes s.asinfo.entries = s.ram.bytes ∧
    AllocCall.NonWrapping ⟨0xa000, 0x400, 1⟩ ∧ runAllocs [⟨0xa000, 0x400, 1⟩] s = .ok s' ∧
    ¬ OthersKept s.asinfo.entries s'.asinfo.entries := by
  have hkept : ownedBank.Kept := by
    refine ⟨rfl, rfl, [⟨0xa000, 0xb000⟩], ⟨⟨0, 0⟩, rfl, ?_⟩, rfl, by decide,
      normal_singleton (by simp), by simp⟩
    rw [List.map_singleton, List.singleton_append, holds_cons, holds_cons]
    exact ⟨rfl, rfl, Holds.nil _ _⟩
  have hadd : (add_sysram ownedBank).toOption.map (fun s => (s.asinfo.entries, s.ram.entries)) =
      some (ownedBank.asinfo.entries, [⟨0xa000, 0x1000⟩]) := by decide +kernel
  obtain ⟨s, hs, he⟩ := Option.map_eq_some_iff.mp hadd
  have hs := toOption_eq_some.mp hs
  obtain ⟨hE, hR⟩ := Prod.mk.inj he
  have hrun : (add_sysram ownedBank >>= runAllocs [⟨0xa000, 0x400, 1⟩]).toOption.map
      (fun s' => s'.asinfo.entries[2]?) = some (some ⟨0xa400, 0xa7ff, some 1, "dma", {}⟩) := by
    decide +kernel
  obtain ⟨s', hs', hcut⟩ := Option.map_eq_some_iff.mp hrun
  rw [toOption_eq_some, hs] at hs'
  have hs' : runAllocs [⟨0xa000, 0x400, 1⟩] s = .ok s' := hs'
  refine ⟨s, s', hkept, hs, ?_, ?_, .inr (by decide), hs', fun hothers => ?_⟩
  · rw [hE]
    simp [ownedBank, SysramApart]
  · ext b
    simp [hE, hR, ownedBank, sysramBytes, RamList.bytes, AsinfoEntry.range]
    omega
  · obtain ⟨e', he', hstart, -⟩ := hothers 2 ⟨0xa000, 0xa7ff, some 1, "dma", {}⟩ (by rw [hE]; rfl)
      (by decide)
    rw [hcut] at he'
    cases he'
    exact absurd hstart (by decide)

end Startup
