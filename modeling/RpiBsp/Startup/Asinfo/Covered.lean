import RpiBsp.Startup.Asinfo.Containing

/-!
# Startup — Asinfo — the addresses of the pieces

What `as_add_containing` appends shows the addresses of the range that some matching entry has,
however these entries lie: where two of them overlap without one being within the other, a piece can
end before it starts, and such a piece is not added.

* `shown_splice`, `shown_collect` — the addresses of the list of pieces;
* `containing_shown` — **main**: the entries that are appended, and their addresses.
-/

namespace Startup

open Support

/-- Some piece has the address. -/
def Shown (list : List AsRange) (x : ℕ) : Prop := ∃ p ∈ list, p.Has x

variable {s e owner x : ℕ} {list : List AsRange}

@[simp] theorem shown_nil : ¬ Shown [] x := fun ⟨_, hp, _⟩ => nomatch hp

@[simp] theorem shown_cons {p : AsRange} : Shown (p :: list) x ↔ p.Has x ∨ Shown list x := by
  simp [Shown]

/-- One more entry adds its addresses, wherever its part goes. -/
theorem shown_splice (hse : s ≤ e) (he : e + 1 < 2 ^ 64) :
    Shown (splice s e owner list) x ↔ Shown list x ∨ (s ≤ x ∧ x ≤ e) := by
  have hnext : addW 64 e 1 = e + 1 := addW_of_lt he
  induction list with
  | nil => simp [splice, AsRange.Has]
  | cons curr rest ih =>
      rw [splice]
      split
      · rename_i hin
        split
        · simp only [shown_cons, AsRange.Has]
          grind
        · split
          · simp only [shown_cons, AsRange.Has, hnext]
            grind
          · have hprev : subW 64 s 1 = s - 1 := subW_of_le (by omega) (by omega)
            split
            · simp only [shown_cons, AsRange.Has, hnext, hprev]
              grind
            · simp only [shown_cons, AsRange.Has, hprev]
              grind
      · simp only [shown_cons, ih, or_assoc]

variable {base : List AsinfoEntry} {start end_ : ℕ} {container : String}

/-- The loop over the entries adds the addresses of each matching entry that it comes to. -/
theorem shown_collect (hprop : ∀ e ∈ base, e.start ≤ e.end_) (hreq : start ≤ end_)
    (hend : end_ + 1 < 2 ^ 64)
    (fuel : ℕ) (off : Option ℕ) (hfuel : base.length < after off + fuel) :
    Shown (collect base start end_ container fuel off list) x ↔ Shown list x ∨
      (start ≤ x ∧ x ≤ end_) ∧ ∃ j e, after off ≤ j ∧ base[j]? = some e ∧ Matches base container e ∧
      e.Has x := by
  induction fuel generalizing off list with
  | zero =>
      have hnone : ¬ ∃ j e, after off ≤ j ∧ base[j]? = some e ∧ Matches base container e ∧
          e.Has x := by
        rintro ⟨j, e, hj, he, -⟩
        have := (List.getElem?_eq_some_iff.mp he).1
        omega
      rw [collect, or_iff_left fun h => hnone h.2]
  | succ fuel ih =>
      rw [collect]
      cases hf : as_find_containing base off start end_ container with
      | none =>
          refine ⟨.inl, fun h => h.resolve_right ?_⟩
          rintro ⟨hreq, j, e, hj, he, hm, hx⟩
          exact find_none_at hf hj he ⟨hm, meets_of_has hx hreq⟩
      | some o =>
          obtain ⟨hle, ⟨as, has, hm, hmeets⟩, hlater⟩ := find_some_at hf
          have has' := hprop as (List.mem_of_getElem? has)
          have hlt : o < base.length := (List.getElem?_eq_some_iff.mp has).1
          simp only [has]
          have hse : (if start < as.start then as.start else start) ≤
              (if as.end_ < end_ then as.end_ else end_) := by
            simp only [AsinfoEntry.meets, Bool.or_eq_true, Bool.and_eq_true,
              decide_eq_true_eq] at hmeets
            split <;> split <;> omega
          have hin : (if start < as.start then as.start else start) ≤ x ∧
              x ≤ (if as.end_ < end_ then as.end_ else end_) ↔
              (start ≤ x ∧ x ≤ end_) ∧ as.Has x := by
            rw [AsinfoEntry.Has]
            split <;> split <;> omega
          have hsmall : (if as.end_ < end_ then as.end_ else end_) + 1 < 2 ^ 64 := by
            split <;> omega
          rw [ih (some o) (by rw [after]; omega), shown_splice hse hsmall, hin, or_assoc,
            ← and_or_left]
          refine or_congr_right (and_congr_right fun hx => ?_)
          constructor
          · rintro (hx' | ⟨j, e, hj, he⟩)
            · exact ⟨o, as, hle, has, hm, hx'⟩
            · exact ⟨j, e, hle.trans (Nat.le_of_succ_le hj), he⟩
          · rintro ⟨j, e, hj, he, hme, hex⟩
            rcases Nat.lt_trichotomy j o with hlo | rfl | hhi
            · exact absurd ⟨hme, meets_of_has hex hx⟩ (hlater j e hj hlo he)
            · cases Option.some.inj (has.symm.trans he)
              exact .inl hex
            · exact .inr ⟨j, e, hhi, he, hme, hex⟩

/-! ### The entries that are appended -/

/-- A piece that ends before it starts is not added. -/
theorem addPieces_filter (attr : AsAttr) (name : String) (list : List AsRange)
    (start_off off : Option ℕ) (t : Asinfo) :
    addPieces attr name list start_off off t =
      addPieces attr name (list.filter fun p => p.start ≤ p.end_) start_off off t := by
  induction list generalizing start_off off t with
  | nil => rfl
  | cons p list ih =>
      by_cases hp : p.start ≤ p.end_
      · rw [List.filter_cons_of_pos (by simpa using hp), addPieces, addPieces, if_pos hp, if_pos hp]
        congr 1
        funext r
        exact ih _ _ _
      · rw [List.filter_cons_of_neg (by simpa using hp), addPieces, if_neg hp, ih]

/-- **The addresses of a range.**  Behind the entries of the table, which keep all but their
attributes, come proper entries of the name, and their addresses are those of the range that a
matching entry has. -/
theorem containing_shown {attr : AsAttr} {name : String} {t : Asinfo} {r : Option ℕ × Asinfo}
    (hio : attr.overlay_io = false) (hprop : ∀ e ∈ t.entries, e.start ≤ e.end_)
    (hreq : start ≤ end_)
    (hend : end_ + 1 < 2 ^ 64) (h : as_add_containing start end_ attr name container t = .ok r) :
    ∃ added, r.2.cores = t.cores ++ added ∧ (∀ e ∈ added, e.name = name ∧ e.start ≤ e.end_) ∧
      ∀ x, (∃ e ∈ added, e.Has x) ↔
        (start ≤ x ∧ x ≤ end_) ∧ ∃ e ∈ t.entries, Matches t.entries container e ∧ e.Has x := by
  have hshown (x : ℕ) :=
    @shown_collect x [] t.entries start end_ container hprop hreq hend (t.entries.length + 1) none
    (by simp [after])
  rw [as_add_containing] at h
  generalize collect t.entries start end_ container (t.entries.length + 1) none [] =
    list at h hshown
  rw [addPieces_filter] at h
  obtain ⟨⟨first, last, t₁⟩, ha, hr⟩ := bind_eq_ok.mp h
  have hproper : ∀ p ∈ list.filter (fun p => p.start ≤ p.end_), p.start ≤ p.end_ := fun p hp =>
    of_decide_eq_true (List.mem_filter.mp hp).2
  obtain ⟨hseen, -, -⟩ := addPieces_seen rfl _ hproper none none t ha
  have hcores : t₁.cores = t.cores ++ entries name (list.filter fun p => p.start ≤ p.end_) := by
    rw [Asinfo.cores_eq, hseen, List.map_append, ← Asinfo.cores_eq, List.map_map]
    rfl
  refine ⟨entries name (list.filter fun p => p.start ≤ p.end_), ?_, ?_, fun x => ?_⟩
  · rw [← hcores]
    cases first with
    | none =>
        cases hr
        rfl
    | some first =>
        cases last with
        | none =>
            cases hr
            rfl
        | some last =>
            simp only [hio] at hr
            cases hr
            exact map_modify_eq fun _ => rfl
  · intro e he
    obtain ⟨p, hp, rfl⟩ := List.mem_map.mp he
    exact ⟨rfl, hproper p hp⟩
  · have hfilter : (∃ e ∈ entries name (list.filter fun p => p.start ≤ p.end_), e.Has x) ↔
        Shown list x := by
      constructor
      · rintro ⟨e, he, hx⟩
        obtain ⟨p, hp, rfl⟩ := List.mem_map.mp he
        exact ⟨p, (List.mem_filter.mp hp).1, hx⟩
      · rintro ⟨p, hp, hx⟩
        exact ⟨p.entry name false,
          List.mem_map_of_mem (List.mem_filter.mpr ⟨hp, decide_eq_true (hx.1.trans hx.2)⟩), hx⟩
    rw [hfilter, hshown x]
    simp only [shown_nil, false_or]
    refine and_congr_right fun _ => ⟨?_, ?_⟩
    · rintro ⟨j, e, -, he, hm, hx⟩
      exact ⟨e, List.mem_of_getElem? he, hm, hx⟩
    · rintro ⟨e, he, hm, hx⟩
      obtain ⟨j, hj⟩ := List.mem_iff_getElem?.mp he
      exact ⟨j, e, Nat.zero_le _, hj, hm, hx⟩

end Startup
