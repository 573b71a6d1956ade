import RpiBsp.Startup.Asinfo.Table

/-!
# Startup — Asinfo — pieces of a range

`as_add_containing` cuts a range along the entries that contain parts of it: while it goes through
them it keeps a list of pieces, and each entry takes its part out of the piece it starts in.

* `Tiles` — the pieces show which entry each address belongs to, and two pieces of one entry never
touch;
* `Tiles.splice` — the part of one more entry falls into one piece, or beside all of them;
* `lastOwner_const`, `tiles_collect` — with nested entries, the pieces show the last entry that
contains an address;
* `containing_spec` — **main**: what is appended, with the second layer for `AS_OVERLAY_IO`.
-/

namespace Startup

open Support

/-! ### Pieces -/

def AsRange.Has (p : AsRange) (x : ℕ) : Prop := p.start ≤ x ∧ x ≤ p.end_

/-- Two pieces with a gap between them if they have one owner, and side by side otherwise. -/
def Detached (p q : AsRange) : Prop :=
  (p.end_ < q.start ∧ (p.owner = q.owner → p.end_ + 1 < q.start)) ∨
  (q.end_ < p.start ∧ (p.owner = q.owner → q.end_ + 1 < p.start))

/-- The pieces that show which owner each address has. -/
structure Tiles (list : List AsRange) (own : ℕ → Option ℕ) : Prop where
  proper : ∀ p ∈ list, p.start ≤ p.end_
  owns : ∀ p ∈ list, ∀ x, p.Has x → own x = some p.owner
  covers : ∀ x o, own x = some o → ∃ p ∈ list, p.Has x
  apart : list.Pairwise Detached

theorem Tiles.nil : Tiles [] fun _ => none :=
  ⟨nofun, nofun, nofun, .nil⟩

/-- A part of a piece, or a new piece within it, is apart from what the piece was apart from. -/
theorem Detached.part {p q m : AsRange} (h : Detached p q) (hlo : p.start ≤ m.start)
    (hhi : m.end_ ≤ p.end_) (ho : m.owner = p.owner ∨ m.owner ≠ q.owner) : Detached m q := by
  rcases h with ⟨h, hs⟩ | ⟨h, hs⟩
  · refine .inl ⟨by omega, fun he => ?_⟩
    have := hs ((ho.resolve_right fun hne => hne he).symm.trans he)
    omega
  · refine .inr ⟨by omega, fun he => ?_⟩
    have := hs ((ho.resolve_right fun hne => hne he).symm.trans he)
    omega

theorem Detached.symm {p q : AsRange} (h : Detached p q) : Detached q p := by
  rcases h with ⟨h, hs⟩ | ⟨h, hs⟩
  · exact .inr ⟨h, fun he => hs he.symm⟩
  · exact .inl ⟨h, fun he => hs he.symm⟩

/-- A piece of a list may be replaced by pieces within it, of its owner or of a new one. -/
theorem pairwise_replace {pre post mid : List AsRange} {p : AsRange} {owner : ℕ}
    (h : (pre ++ p :: post).Pairwise Detached) (hnew : ∀ q ∈ pre ++ p :: post, q.owner ≠ owner)
    (hmid : mid.Pairwise Detached)
    (hin : ∀ m ∈ mid, p.start ≤ m.start ∧ m.end_ ≤ p.end_ ∧ (m.owner = p.owner ∨ m.owner = owner)) :
    (pre ++ mid ++ post).Pairwise Detached := by
  obtain ⟨hpre, hpost, hcross⟩ := List.pairwise_append.mp h
  obtain ⟨hp, hpost⟩ := List.pairwise_cons.mp hpost
  have hpart : ∀ m ∈ mid, ∀ q ∈ pre ++ p :: post, Detached p q → Detached m q := by
    intro m hm q hq ha
    obtain ⟨hlo, hhi, ho⟩ := hin m hm
    exact ha.part hlo hhi (ho.imp_right fun ho hne => hnew q hq (hne.symm.trans ho))
  rw [List.append_assoc, List.pairwise_append, List.pairwise_append]
  refine ⟨hpre, ⟨hmid, hpost, fun m hm q hq => hpart m hm q (by simp [hq]) (hp q hq)⟩,
    fun q hq m hm => ?_⟩
  rcases List.mem_append.mp hm with hm | hm
  · exact (hpart m hm q (by simp [hq]) (hcross q hq p (by simp)).symm).symm
  · exact hcross q hq m (by simp [hm])

/-! ### Taking a part out -/

/-- What becomes of a piece. -/
def cut (s e owner : ℕ) (p : AsRange) : List AsRange :=
  (if p.start = s then [] else [⟨p.start, s - 1, p.owner⟩]) ++ ⟨s, e, owner⟩ ::
    (if p.end_ = e then [] else [⟨e + 1, p.end_, p.owner⟩])

theorem splice_cons_of_has {s e owner : ℕ} {p : AsRange} {rest : List AsRange} (h : p.Has s)
    (he : e ≤ p.end_)
    (hs : s ≤ e) (hb : p.end_ < 2 ^ 64) :
      splice s e owner (p :: rest) = cut s e owner p ++ rest := by
  obtain ⟨hlo, hhi⟩ := h
  rw [splice, if_pos ⟨hlo, hhi⟩, cut]
  by_cases hps : p.start = s
  · by_cases hpe : p.end_ = e
    · subst hps hpe
      simp
    · have haw : addW 64 e 1 = e + 1 := addW_of_lt (by omega)
      subst hps
      simp [hpe, haw]
  · have hsw : subW 64 s 1 = s - 1 := subW_of_le (by omega) (by omega)
    by_cases hpe : p.end_ = e
    · subst hpe
      simp [hps, hsw]
    · have haw : addW 64 e 1 = e + 1 := addW_of_lt (by omega)
      simp [hps, hpe, hsw, haw]

theorem splice_append {s e owner : ℕ} {pre : List AsRange} (h : ∀ p ∈ pre, ¬ p.Has s)
    (rest : List AsRange) :
    splice s e owner (pre ++ rest) = pre ++ splice s e owner rest := by
  induction pre with
  | nil => rfl
  | cons p pre ih =>
    rw [List.forall_mem_cons] at h
    rw [List.cons_append, splice, if_neg (show ¬ (p.start ≤ s ∧ s ≤ p.end_) from h.1), ih h.2,
      List.cons_append]

theorem splice_of_not_has {s e owner : ℕ} {list : List AsRange} (h : ∀ p ∈ list, ¬ p.Has s) :
    splice s e owner list = list ++ [⟨s, e, owner⟩] := by
  have hnil : splice s e owner [] = [⟨s, e, owner⟩] := rfl
  rw [← hnil, ← splice_append h [], List.append_nil]

theorem mem_cut {s e owner : ℕ} {p m : AsRange} (h : p.Has s) (hs : s ≤ e) (he : e ≤ p.end_)
    (hm : m ∈ cut s e owner p) : p.start ≤ m.start ∧ m.end_ ≤ p.end_ ∧ m.start ≤ m.end_ ∧
      ((m.owner = owner ∧ m.start = s ∧ m.end_ = e) ∨
        (m.owner = p.owner ∧ ∀ x, m.Has x → ¬ (s ≤ x ∧ x ≤ e))) := by
  obtain ⟨hlo, hhi⟩ := h
  simp only [cut, List.mem_append, List.mem_cons] at hm
  rcases hm with hm | rfl | hm
  · split at hm
    · cases hm
    · rw [List.mem_singleton] at hm
      subst hm
      refine ⟨Nat.le_refl _, by simp only; omega, by simp only; omega,
        .inr ⟨rfl, fun x hx hc => ?_⟩⟩
      have := hx.2
      simp only at this
      omega
  · exact ⟨hlo, he, hs, .inl ⟨rfl, rfl, rfl⟩⟩
  · split at hm
    · cases hm
    · rw [List.mem_singleton] at hm
      subst hm
      refine ⟨by simp only; omega, Nat.le_refl _, by simp only; omega,
        .inr ⟨rfl, fun x hx hc => ?_⟩⟩
      have := hx.1
      simp only at this
      omega

theorem pairwise_cut {s e owner : ℕ} {p : AsRange} (h : p.Has s) (hs : s ≤ e)
    (ho : p.owner ≠ owner) :
    (cut s e owner p).Pairwise Detached := by
  obtain ⟨hlo, hhi⟩ := h
  rw [cut]
  split <;> split <;> simp [Detached, ho, ho.symm] <;> omega

/-- Each address of a piece is in a part of it. -/
theorem exists_mem_cut (s e owner : ℕ) {x : ℕ} {p : AsRange} (hx : p.Has x) :
    ∃ m ∈ cut s e owner p, m.Has x := by
  obtain ⟨hlo, hhi⟩ := hx
  rcases Nat.lt_or_ge x s with hxs | hxs
  · refine ⟨⟨p.start, s - 1, p.owner⟩, ?_, hlo, by simp only; omega⟩
    simp [cut, show p.start ≠ s by omega]
  · rcases Nat.lt_or_ge e x with hxe | hxe
    · refine ⟨⟨e + 1, p.end_, p.owner⟩, ?_, by simp only; omega, hhi⟩
      simp [cut, show p.end_ ≠ e by omega]
    · exact ⟨⟨s, e, owner⟩, by simp [cut], hxs, hxe⟩

/-- Two pieces of a list that have an address in common are one. -/
theorem eq_or_apart {pre post : List AsRange} {p q : AsRange}
    (h : (pre ++ p :: post).Pairwise Detached)
    (hq : q ∈ pre ++ p :: post) : q = p ∨ Detached p q := by
  obtain ⟨-, hpost, hcross⟩ := List.pairwise_append.mp h
  rcases List.mem_append.mp hq with hq | hq
  · exact .inr (hcross q hq p (by simp)).symm
  · rcases List.mem_cons.mp hq with rfl | hq
    · exact .inl rfl
    · exact .inr ((List.pairwise_cons.mp hpost).1 q hq)

theorem Detached.not_has {p q : AsRange} {x : ℕ} (h : Detached p q) (hp : p.Has x) : ¬ q.Has x := by
  intro hq
  obtain ⟨hp₁, hp₂⟩ := hp
  obtain ⟨hq₁, hq₂⟩ := hq
  rcases h with ⟨h, -⟩ | ⟨h, -⟩ <;> omega

/-- A range whose addresses all have one owner does not go past the piece it starts in. -/
theorem Tiles.end_le {pre post : List AsRange} {p : AsRange} {own : ℕ → Option ℕ}
    (h : Tiles (pre ++ p :: post) own)
    {s e : ℕ} (hp : p.Has s) (hone : ∀ x, s ≤ x → x ≤ e → own x = own s) : e ≤ p.end_ := by
  by_contra hc
  obtain ⟨hlo, hhi⟩ := hp
  have hown : own (p.end_ + 1) = some p.owner :=
    (hone _ (by omega) (by omega)).trans (h.owns p (by simp) s ⟨hlo, hhi⟩)
  obtain ⟨q, hq, hqx⟩ := h.covers _ _ hown
  have ho : p.owner = q.owner := Option.some.inj (hown.symm.trans (h.owns q hq _ hqx))
  obtain ⟨hq₁, hq₂⟩ := hqx
  rcases eq_or_apart h.apart hq with rfl | ha
  · omega
  · rcases ha with ⟨-, ha⟩ | ⟨ha, -⟩
    · have := ha ho
      omega
    · omega

/-- **Taking a part out.**  A range whose addresses all have one owner, or none, is put among the
pieces with a new owner. -/
theorem Tiles.splice {list : List AsRange} {own : ℕ → Option ℕ} (h : Tiles list own) {s e owner : ℕ}
    (hs : s ≤ e) (hb : ∀ p ∈ list, p.end_ < 2 ^ 64) (hnew : ∀ p ∈ list, p.owner ≠ owner)
    (hone : ∀ x, s ≤ x → x ≤ e → own x = own s) :
    Tiles (splice s e owner list) fun x => if s ≤ x ∧ x ≤ e then some owner else own x := by
  by_cases hex : ∃ p ∈ list, p.Has s
  · obtain ⟨p, hp, hps⟩ := hex
    obtain ⟨pre, post, rfl⟩ := List.append_of_mem hp
    have he := h.end_le hps hone
    have hpre : ∀ q ∈ pre, ¬ q.Has s := fun q hq =>
      ((List.pairwise_append.mp h.apart).2.2 q hq p (by simp)).symm.not_has hps
    rw [splice_append hpre, splice_cons_of_has hps he hs (hb p hp), ← List.append_assoc]
    have hout : ∀ q ∈ pre ++ post, ∀ x, q.Has x → ¬ (s ≤ x ∧ x ≤ e) := by
      intro q hq x hx hc
      have ha : Detached p q := by
        rcases List.mem_append.mp hq with hq | hq
        · exact ((List.pairwise_append.mp h.apart).2.2 q hq p (by simp)).symm
        · exact (List.pairwise_cons.mp (List.pairwise_append.mp h.apart).2.1).1 q hq
      exact ha.not_has ⟨hps.1.trans hc.1, hc.2.trans he⟩ hx
    have hmem : ∀ q ∈ pre ++ post, q ∈ pre ++ p :: post := by
      intro q hq
      rcases List.mem_append.mp hq with hq | hq <;> simp [hq]
    refine ⟨fun m hm => ?_, fun m hm x hx => ?_, fun x o hx => ?_, ?_⟩
    · rw [List.append_assoc, List.mem_append, List.mem_append] at hm
      rcases hm with hm | hm | hm
      · exact h.proper m (by simp [hm])
      · exact (mem_cut hps hs he hm).2.2.1
      · exact h.proper m (by simp [hm])
    · rw [List.append_assoc, List.mem_append, List.mem_append] at hm
      have hold : m ∈ pre ++ post →
          (if s ≤ x ∧ x ≤ e then some owner else own x) = some m.owner := by
        intro hm
        rw [if_neg (hout m hm x hx)]
        exact h.owns m (hmem m hm) x hx
      rcases hm with hm | hm | hm
      · exact hold (List.mem_append_left _ hm)
      · obtain ⟨hlo, hhi, -, ⟨ho, hms, hme⟩ | ⟨ho, hx'⟩⟩ := mem_cut hps hs he hm
        · rw [if_pos ⟨hms ▸ hx.1, hme ▸ hx.2⟩, ho]
        · rw [if_neg (hx' x hx), ho]
          exact h.owns p hp x ⟨hlo.trans hx.1, hx.2.trans hhi⟩
      · exact hold (List.mem_append_right _ hm)
    · have hcut : p.Has x → ∃ m ∈ pre ++ cut s e owner p ++ post, m.Has x := by
        intro hx
        obtain ⟨m, hm, hmx⟩ := exists_mem_cut s e owner hx
        exact ⟨m, by simp [hm], hmx⟩
      by_cases hc : s ≤ x ∧ x ≤ e
      · exact hcut ⟨hps.1.trans hc.1, hc.2.trans he⟩
      · simp only [if_neg hc] at hx
        obtain ⟨q, hq, hqx⟩ := h.covers x o hx
        rcases List.mem_append.mp hq with hq | hq
        · exact ⟨q, by simp [hq], hqx⟩
        · rcases List.mem_cons.mp hq with rfl | hq
          · exact hcut hqx
          · exact ⟨q, by simp [hq], hqx⟩
    · refine pairwise_replace h.apart hnew (pairwise_cut hps hs (hnew p hp)) fun m hm => ?_
      obtain ⟨hlo, hhi, -, ho⟩ := mem_cut hps hs he hm
      exact ⟨hlo, hhi, ho.elim (fun ho => .inr ho.1) fun ho => .inl ho.1⟩
  · have hnone : ∀ p ∈ list, ¬ p.Has s := fun p hp hps => hex ⟨p, hp, hps⟩
    have hown : own s = none := by
      cases ho : own s with
      | none => rfl
      | some o =>
        obtain ⟨p, hp, hps⟩ := h.covers s o ho
        exact absurd hps (hnone p hp)
    have hout : ∀ p ∈ list, ∀ x, p.Has x → ¬ (s ≤ x ∧ x ≤ e) := by
      intro p hp x hx hc
      have := (h.owns p hp x hx).symm.trans ((hone x hc.1 hc.2).trans hown)
      cases this
    rw [splice_of_not_has hnone]
    refine ⟨fun m hm => ?_, fun m hm x hx => ?_, fun x o hx => ?_, ?_⟩
    · rcases List.mem_append.mp hm with hm | hm
      · exact h.proper m hm
      · rw [List.mem_singleton.mp hm]
        exact hs
    · rcases List.mem_append.mp hm with hm | hm
      · rw [if_neg (hout m hm x hx)]
        exact h.owns m hm x hx
      · rw [List.mem_singleton.mp hm] at hx ⊢
        exact if_pos hx
    · by_cases hc : s ≤ x ∧ x ≤ e
      · exact ⟨⟨s, e, owner⟩, by simp, hc⟩
      · simp only [if_neg hc] at hx
        obtain ⟨q, hq, hqx⟩ := h.covers x o hx
        exact ⟨q, by simp [hq], hqx⟩
    · rw [List.pairwise_append]
      refine ⟨h.apart, List.pairwise_singleton _ _, fun p hp m hm => ?_⟩
      rw [List.mem_singleton.mp hm]
      have hpp := h.proper p hp
      have hdis : p.end_ < s ∨ e < p.start := by
        by_contra hc
        refine hout p hp (max s p.start) ⟨Nat.le_max_right _ _, ?_⟩
          ⟨Nat.le_max_left _ _, ?_⟩ <;> omega
      rcases hdis with hd | hd
      · exact .inl ⟨hd, fun ho => absurd ho (hnew p hp)⟩
      · exact .inr ⟨hd, fun ho => absurd ho (hnew p hp)⟩

/-! ### The entries -/

def AsinfoEntry.Has (e : AsinfoEntry) (x : ℕ) : Prop := e.start ≤ x ∧ x ≤ e.end_

/-- An entry matches the name of a container, by its own name or through an owner. -/
def Matches (base : List AsinfoEntry) (container : String) (e : AsinfoEntry) : Prop :=
  match_name base container (base.length + 1) e = true

instance (base : List AsinfoEntry) (container : String) (e : AsinfoEntry) :
    Decidable (Matches base container e) :=
  inferInstanceAs (Decidable (_ = true))

/-- The last of the first entries that matches and contains an address of the range. -/
def lastOwner (base : List AsinfoEntry) (start end_ : ℕ) (container : String) : ℕ → ℕ → Option ℕ
  | 0, _ => none
  | k + 1, x =>
    match base[k]? with
    | none => lastOwner base start end_ container k x
    | some e =>
      if Matches base container e ∧ (e.start ≤ x ∧ x ≤ e.end_) ∧ start ≤ x ∧ x ≤ end_ then some k
      else lastOwner base start end_ container k x

section Entries

variable {base : List AsinfoEntry} {start end_ : ℕ} {container : String}

theorem lastOwner_eq_some {k x i : ℕ} (h : lastOwner base start end_ container k x = some i) :
    i < k ∧ (start ≤ x ∧ x ≤ end_) ∧ (∃ e, base[i]? = some e ∧ Matches base container e ∧ e.Has x) ∧
      ∀ j e, i < j → j < k → base[j]? = some e → Matches base container e → ¬ e.Has x := by
  induction k with
  | zero => cases h
  | succ k ih =>
    rw [lastOwner] at h
    cases hk : base[k]? with
    | none =>
      rw [hk] at h
      obtain ⟨hlt, hreq, hex, hlast⟩ := ih h
      refine ⟨by omega, hreq, hex, fun j e hij hj he => ?_⟩
      refine hlast j e hij (lt_of_le_of_ne (Nat.le_of_lt_succ hj) ?_) he
      rintro rfl
      rw [hk] at he
      cases he
    | some e =>
      rw [hk] at h
      simp only at h
      split at h
      case isTrue hc =>
        cases h
        exact ⟨Nat.lt_succ_self _, hc.2.2, ⟨e, hk, hc.1, hc.2.1⟩, fun j _ hij hj =>
          absurd hj (by omega)⟩
      case isFalse hc =>
        obtain ⟨hlt, hreq, hex, hlast⟩ := ih h
        refine ⟨by omega, hreq, hex, fun j f hij hj hf hm hx => ?_⟩
        rcases Nat.lt_succ_iff_lt_or_eq.mp hj with hj | rfl
        · exact hlast j f hij hj hf hm hx
        · rw [hk] at hf
          cases hf
          exact hc ⟨hm, hx, hreq⟩

theorem lastOwner_isSome {k x i : ℕ} {e : AsinfoEntry} (hik : i < k) (he : base[i]? = some e)
    (hm : Matches base container e) (hx : e.Has x) (hreq : start ≤ x ∧ x ≤ end_) :
    ∃ j, lastOwner base start end_ container k x = some j ∧ i ≤ j := by
  induction k with
  | zero => exact absurd hik (Nat.not_lt_zero _)
  | succ k ih =>
    rw [lastOwner]
    rcases Nat.lt_succ_iff_lt_or_eq.mp hik with hik | rfl
    · obtain ⟨j, hj, hle⟩ := ih hik
      cases hk : base[k]? with
      | none => exact ⟨j, hj, hle⟩
      | some f =>
        simp only
        split
        · exact ⟨k, rfl, hik.le⟩
        · exact ⟨j, hj, hle⟩
    · rw [he]
      exact ⟨i, if_pos ⟨hm, hx, hreq⟩, Nat.le_refl _⟩

/-- Each entry that matches has a range, and it is beside each earlier one or within it. -/
structure Nested (base : List AsinfoEntry) (container : String) : Prop where
  proper : ∀ e ∈ base, Matches base container e → e.start ≤ e.end_
  nested : ∀ (i j : ℕ) (e f : AsinfoEntry), i < j → base[i]? = some e → base[j]? = some f →
    Matches base container e →
    Matches base container f → (f.end_ < e.start ∨ e.end_ < f.start) ∨
    (e.start ≤ f.start ∧ f.end_ ≤ e.end_)

/-- **One owner.**  All addresses of a part of an entry have the same last owner among the entries
before it. -/
theorem lastOwner_const (hn : Nested base container) {k x y : ℕ} {f : AsinfoEntry}
    (hf : base[k]? = some f)
    (hm : Matches base container f) (hx : f.Has x ∧ start ≤ x ∧ x ≤ end_)
    (hy : f.Has y ∧ start ≤ y ∧ y ≤ end_) :
    lastOwner base start end_ container k x = lastOwner base start end_ container k y := by
  -- an owner of one address contains the part, so the other address has one that is not before it
  have hup : ∀ x y i, f.Has x → (f.Has y ∧ start ≤ y ∧ y ≤ end_) →
      lastOwner base start end_ container k x = some i →
      ∃ j, lastOwner base start end_ container k y = some j ∧ i ≤ j := by
    intro x y i hx hy hi
    obtain ⟨hlt, -, ⟨e, he, hme, hex⟩, -⟩ := lastOwner_eq_some hi
    have hin : e.start ≤ f.start ∧ f.end_ ≤ e.end_ := by
      refine (hn.nested i k e f hlt he hf hme hm).resolve_left fun hd => ?_
      obtain ⟨hx₁, hx₂⟩ := hx
      obtain ⟨hex₁, hex₂⟩ := hex
      omega
    exact lastOwner_isSome hlt he hme ⟨hin.1.trans hy.1.1, hy.1.2.trans hin.2⟩ hy.2
  cases hix : lastOwner base start end_ container k x with
  | none =>
    cases hiy : lastOwner base start end_ container k y with
    | none => rfl
    | some j =>
      obtain ⟨i, hi, -⟩ := hup y x j hy.1 hx hiy
      rw [hix] at hi
      cases hi
  | some i =>
    obtain ⟨j, hj, hij⟩ := hup x y i hx.1 hy hix
    obtain ⟨i', hi', hji⟩ := hup y x j hy.1 hx hj
    rw [hix, Option.some.injEq] at hi'
    rw [hj]
    congr 1
    omega

/-! ### The loop over the entries -/

theorem find_none_at {off : Option ℕ}
    (h : as_find_containing base off start end_ container = none) {j : ℕ}
    {e : AsinfoEntry} (hj : after off ≤ j) (he : base[j]? = some e) :
    ¬ (Matches base container e ∧ e.meets start end_ = true) := by
  have h' : ((base.drop (after off)).findIdx? fun e =>
      match_name base container (base.length + 1) e && e.meets start end_) = none := by
    cases off <;> simpa [as_find_containing, after] using h
  rw [List.findIdx?_eq_none_iff] at h'
  rintro ⟨hm, hs⟩
  have hmem : e ∈ base.drop (after off) := by
    rw [List.mem_iff_getElem?]
    exact ⟨j - after off, by rw [List.getElem?_drop, Nat.add_sub_cancel' hj, he]⟩
  have := h' e hmem
  rw [Matches] at hm
  rw [hm, hs] at this
  cases this

theorem find_some_at {off : Option ℕ} {o : ℕ}
    (h : as_find_containing base off start end_ container = some o) :
    after off ≤ o ∧ (∃ e, base[o]? = some e ∧ Matches base container e ∧
      e.meets start end_ = true) ∧
      ∀ j e, after off ≤ j → j < o → base[j]? = some e →
      ¬ (Matches base container e ∧ e.meets start end_ = true) := by
  have h' : ((base.drop (after off)).findIdx? fun e =>
      match_name base container (base.length + 1) e && e.meets start end_).map (after off + ·) =
        some o := by
    cases off <;> simpa [as_find_containing, after] using h
  rw [Option.map_eq_some_iff] at h'
  obtain ⟨k, hk, rfl⟩ := h'
  rw [List.findIdx?_eq_some_iff_getElem] at hk
  obtain ⟨hlt, hp, hlater⟩ := hk
  have hgetk : base[after off + k]? = some (base.drop (after off))[k] := by
    rw [← List.getElem?_drop, List.getElem?_eq_getElem hlt]
  refine ⟨Nat.le_add_right _ _, ⟨_, hgetk, ?_⟩, fun j e hj hjk he hs => ?_⟩
  · simpa [Matches] using hp
  · have hj' : j - after off < k := by omega
    refine hlater (j - after off) hj' ?_
    have hlt' : j - after off < (base.drop (after off)).length := hj'.trans hlt
    have hje : (base.drop (after off))[j - after off] = e := by
      rw [← Option.some.injEq, ← List.getElem?_eq_getElem, List.getElem?_drop,
        Nat.add_sub_cancel' hj, he]
    rw [hje]
    simpa [Matches] using hs

/-- An entry with an address of the range meets it. -/
theorem meets_of_has {e : AsinfoEntry} {x : ℕ} (hx : e.Has x) (hreq : start ≤ x ∧ x ≤ end_) :
    e.meets start end_ = true := by
  obtain ⟨hx₁, hx₂⟩ := hx
  simp only [AsinfoEntry.meets, Bool.or_eq_true, Bool.and_eq_true, decide_eq_true_eq]
  omega

theorem lastOwner_skip {k k' : ℕ} (hle : k ≤ k') (h : ∀ j e, k ≤ j → j < k' → base[j]? = some e →
    ¬ (Matches base container e ∧ e.meets start end_ = true)) :
    lastOwner base start end_ container k' = lastOwner base start end_ container k := by
  induction hle with
  | refl => rfl
  | @step m hkm ih =>
    have hm := ih fun j e hj hjm => h j e hj (Nat.lt_succ_of_lt hjm)
    funext x
    rw [lastOwner, hm]
    cases he : base[m]? with
    | none => rfl
    | some e =>
      exact if_neg fun hc => h m e hkm (Nat.lt_succ_self m) he ⟨hc.1, meets_of_has hc.2.1 hc.2.2⟩

/-- The addresses of a table are 64-bit words. -/
def Bounded (base : List AsinfoEntry) : Prop := ∀ e ∈ base, e.end_ < 2 ^ 64

/-- The pieces belong to entries that were looked at. -/
theorem Tiles.owner_lt {list : List AsRange} {k : ℕ}
    (h : Tiles list (lastOwner base start end_ container k))
    (hb : Bounded base) {p : AsRange} (hp : p ∈ list) : p.owner < k ∧ p.end_ < 2 ^ 64 := by
  have hprop := h.proper p hp
  obtain ⟨hlt, -, ⟨e, he, -, hx⟩, -⟩ :=
    lastOwner_eq_some (h.owns p hp p.end_ ⟨hprop, Nat.le_refl _⟩)
  exact ⟨hlt, hx.2.trans_lt (hb e (List.mem_of_getElem? he))⟩

/-- **The loop over the entries.**  The pieces show the last entry that contains an address. -/
theorem tiles_collect (hn : Nested base container) (hb : Bounded base) (hreq : start ≤ end_)
    (fuel : ℕ) (off : Option ℕ) (list : List AsRange)
    (hoff : after off ≤ base.length) (hfuel : base.length < after off + fuel)
    (h : Tiles list (lastOwner base start end_ container (after off))) :
    Tiles (collect base start end_ container fuel off list)
      (lastOwner base start end_ container base.length) := by
  induction fuel generalizing off list with
  | zero => omega
  | succ fuel ih =>
    rw [collect]
    cases hf : as_find_containing base off start end_ container with
    | none =>
      rw [lastOwner_skip hoff fun j e hj _ he => find_none_at hf hj he]
      exact h
    | some o =>
      obtain ⟨hle, ⟨as, has, hm, hmeets⟩, hlater⟩ := find_some_at hf
      have hlt : o < base.length := (List.getElem?_eq_some_iff.mp has).1
      have hprop := hn.proper as (List.mem_of_getElem? has) hm
      simp only [has]
      rw [← lastOwner_skip hle hlater] at h
      have hse : (if start < as.start then as.start else start) ≤
          (if as.end_ < end_ then as.end_ else end_) := by
        simp only [AsinfoEntry.meets, Bool.or_eq_true, Bool.and_eq_true,
          decide_eq_true_eq] at hmeets
        split <;> split <;> omega
      have hin : ∀ x, (if start < as.start then as.start else start) ≤ x ∧
          x ≤ (if as.end_ < end_ then as.end_ else end_) ↔
          (as.start ≤ x ∧ x ≤ as.end_) ∧ start ≤ x ∧ x ≤ end_ := by
        intro x
        split <;> split <;> omega
      have hs := h.splice hse (fun p hp => (h.owner_lt hb hp).2)
        (fun p hp => (h.owner_lt hb hp).1.ne)
        fun x hx₁ hx₂ => lastOwner_const hn has hm ((hin x).mp ⟨hx₁, hx₂⟩)
          ((hin _).mp ⟨Nat.le_refl _, hse⟩)
      have hown : (fun x => if (if start < as.start then as.start else start) ≤ x ∧
          x ≤ (if as.end_ < end_ then as.end_ else end_) then some o
            else lastOwner base start end_ container o x) =
          lastOwner base start end_ container (o + 1) := by
        funext x
        simp only [lastOwner, has, hin, hm, true_and]
      rw [hown] at hs
      exact ih (some o) _ hlt (by rw [after]; omega) hs

end Entries

/-! ### The entries that are appended -/

/-- An entry without its attributes but `AS_ATTR_CONTINUED`. -/
def AsinfoEntry.seen (e : AsinfoEntry) : AsinfoEntry :=
  { e with attr := { continued := e.attr.continued } }

def Asinfo.seen (t : Asinfo) : List AsinfoEntry := t.entries.map AsinfoEntry.seen

@[simp] theorem Asinfo.length_seen (t : Asinfo) : t.seen.length = t.entries.length :=
  List.length_map _

theorem Asinfo.cores_eq (t : Asinfo) : t.cores = t.seen.map AsinfoEntry.core := by
  rw [seen, cores, List.map_map]
  rfl

theorem as_add_seen {start end_ : ℕ} {attr : AsAttr} {name : String} {owner : Option ℕ} {t : Asinfo}
    {r : ℕ × Asinfo}
    (hio : attr.overlay_io = false) (h : as_add start end_ attr name owner t = .ok r) :
    r.1 = t.entries.length ∧
    r.2.seen = t.seen ++ [⟨start, end_, owner, name, { continued := attr.continued }⟩] := by
  obtain ⟨⟨off, t₁⟩, ha, hr⟩ := bind_eq_ok.mp h
  simp only [hio] at hr
  cases hr
  rw [as_append] at ha
  split at ha
  case isTrue => cases ha
  case isFalse =>
    cases ha
    refine ⟨rfl, ?_⟩
    cases owner with
    | none => simp [Asinfo.seen, AsinfoEntry.seen]
    | some o =>
      simp only [Asinfo.seen]
      rw [map_modify_eq]
      · simp [AsinfoEntry.seen]
      · exact fun _ => rfl

/-- The entry of a piece. -/
def AsRange.entry (name : String) (continued : Bool) (p : AsRange) : AsinfoEntry :=
  ⟨p.start, p.end_, some p.owner, name, { continued := continued }⟩

theorem addPieces_seen {attr : AsAttr} {name : String} (hio : attr.overlay_io = false)
    (list : List AsRange)
    (hp : ∀ p ∈ list, p.start ≤ p.end_) (start_off off : Option ℕ) (t : Asinfo)
    {r : Option ℕ × Option ℕ × Asinfo}
    (h : addPieces attr name list start_off off t = .ok r) :
    r.2.2.seen = t.seen ++ list.map (AsRange.entry name attr.continued) ∧
    (list = [] → r.1 = start_off ∧ r.2.1 = off) ∧
    (list ≠ [] → r.1 = start_off.or (some t.entries.length) ∧
    r.2.1 = some (t.entries.length + list.length - 1)) := by
  induction list generalizing start_off off t with
  | nil =>
    cases h
    exact ⟨by simp, fun _ => ⟨rfl, rfl⟩, fun hne => absurd rfl hne⟩
  | cons p list ih =>
    rw [List.forall_mem_cons] at hp
    rw [addPieces, if_pos hp.1] at h
    obtain ⟨⟨o, t₁⟩, ha, hr⟩ := bind_eq_ok.mp h
    obtain ⟨ho, hs⟩ := as_add_seen hio ha
    simp only at ho hs hr
    obtain ⟨hseen, hnil, hcons⟩ := ih hp.2 _ _ _ hr
    have hlen : t₁.entries.length = t.entries.length + 1 := by
      rw [← Asinfo.length_seen, hs, List.length_append, Asinfo.length_seen, List.length_singleton]
    refine ⟨by rw [hseen, hs, List.append_assoc]; rfl, fun hc =>
      absurd hc (List.cons_ne_nil _ _), fun _ => ?_⟩
    rcases List.eq_nil_or_concat list with rfl | ⟨l, q, hl⟩
    · obtain ⟨h1, h2⟩ := hnil rfl
      rw [h1, h2, ho]
      exact ⟨rfl, rfl⟩
    · obtain ⟨h1, h2⟩ := hcons (by rw [hl]; simp)
      rw [h1, h2, hlen, ho]
      refine ⟨?_, by rw [List.length_cons]; congr 1; omega⟩
      cases start_off <;> rfl

/-- The layer over pieces, from the index of the first on. -/
def overlay (name : String) : ℕ → List AsinfoEntry → List AsinfoEntry
  | _, [] => []
  | off, p :: ps => ⟨p.start, p.end_, some off, name, {}⟩ :: overlay name (off + 1) ps

theorem overlayPieces_cores {attr : AsAttr} {name : String} (ps : List AsinfoEntry) (fuel off : ℕ)
    (t : Asinfo) {t' : Asinfo} (hfuel : ps.length ≤ fuel) (hne : ps ≠ [])
    (hps : ∀ i (h : i < ps.length), ∃ e, t.entries[off + i]? = some e ∧ e.start = ps[i].start ∧
      e.end_ = ps[i].end_ ∧
      e.attr.continued = decide (i + 1 < ps.length))
    (h : overlayPieces attr name fuel off t = .ok t') :
      t'.cores = t.cores ++ overlay name off ps := by
  induction fuel generalizing ps off t with
  | zero =>
    exact absurd (List.length_pos_iff.mpr hne) (Nat.not_lt.mpr hfuel)
  | succ fuel ih =>
    cases ps with
    | nil => exact absurd rfl hne
    | cons p ps =>
      obtain ⟨e, he, hes, hee, hc⟩ := hps 0 (by simp)
      rw [Nat.add_zero] at he
      rw [overlayPieces, he] at h
      obtain ⟨⟨o, t₁⟩, ha, hr⟩ := bind_eq_ok.mp h
      obtain ⟨-, hs⟩ := as_add_seen rfl ha
      have hcores : t₁.cores = t.cores ++ [⟨p.start, p.end_, some off, name, {}⟩] := by
        rw [Asinfo.cores_eq, hs, List.map_append, ← Asinfo.cores_eq, hes, hee]
        rfl
      simp only at hr
      cases ps with
      | nil =>
        simp only [List.length_singleton, Nat.zero_add, Nat.lt_irrefl, decide_false] at hc
        rw [hc] at hr
        cases hr
        exact hcores
      | cons q ps =>
        have hc : e.attr.continued = true := by simpa using hc
        rw [hc, if_pos rfl] at hr
        have hrest := ih (q :: ps) (off + 1) t₁ (by simpa using hfuel) (List.cons_ne_nil _ _)
          (fun i hi => ?_) hr
        · rw [hrest, hcores, List.append_assoc]
          rfl
        · obtain ⟨f, hf, hfs, hfe, hfc⟩ := hps (i + 1) (by simpa using hi)
          -- the entries that are still to come are seen as they were
          have hseen : t₁.seen[off + 1 + i]? = some f.seen := by
            have hlt : off + (i + 1) < t.entries.length := (List.getElem?_eq_some_iff.mp hf).1
            rw [hs, List.getElem?_append_left (by simp; omega), Asinfo.seen, List.getElem?_map,
              Nat.add_assoc, Nat.add_comm 1, hf]
            rfl
          rw [Asinfo.seen, List.getElem?_map, Option.map_eq_some_iff] at hseen
          obtain ⟨g, hg, hgs⟩ := hseen
          have hg' : g.start = f.start ∧ g.end_ = f.end_ ∧ g.attr.continued = f.attr.continued := by
            simp only [AsinfoEntry.seen, AsinfoEntry.mk.injEq, AsAttr.mk.injEq] at hgs
            exact ⟨hgs.1, hgs.2.1, hgs.2.2.2.2.2.2.1⟩
          exact ⟨g, hg, hg'.1.trans hfs, hg'.2.1.trans hfe, hg'.2.2.trans (by simpa using hfc)⟩

/-- The entries of pieces as they are in the end, without attributes. -/
def entries (name : String) (list : List AsRange) : List AsinfoEntry :=
  list.map (AsRange.entry name false)

/-- **What is appended.**  The pieces, and with `AS_OVERLAY_IO` a layer over them. -/
theorem containing_cores {start end_ : ℕ} {attr : AsAttr} {name container : String} {t : Asinfo}
    {r : Option ℕ × Asinfo}
    (hp : ∀ p ∈ collect t.entries start end_ container (t.entries.length + 1) none [],
    p.start ≤ p.end_)
    (h : as_add_containing start end_ attr name container t = .ok r) :
    r.2.cores = t.cores ++
        entries name (collect t.entries start end_ container (t.entries.length + 1) none []) ++
      if attr.overlay_io then overlay name t.entries.length
        (entries name (collect t.entries start end_ container (t.entries.length + 1) none []))
          else [] := by
  generalize hlist : collect t.entries start end_ container (t.entries.length + 1) none [] =
    list at hp ⊢
  rw [as_add_containing] at h
  simp only [hlist] at h
  obtain ⟨⟨first, last, t₁⟩, ha, hr⟩ := bind_eq_ok.mp h
  obtain ⟨hseen, hnil, hcons⟩ := addPieces_seen rfl list hp none none t ha
  simp only at hseen hnil hcons hr
  have hcores : t₁.cores = t.cores ++ entries name list := by
    rw [Asinfo.cores_eq, hseen, List.map_append, ← Asinfo.cores_eq, List.map_map]
    rfl
  rcases List.eq_nil_or_concat list with rfl | ⟨l, q, hl⟩
  · obtain ⟨rfl, rfl⟩ := hnil rfl
    cases hr
    rw [hcores]
    cases attr.overlay_io <;> simp [entries, overlay]
  · have hne : list ≠ [] := by rw [hl]; simp
    obtain ⟨rfl, rfl⟩ := hcons hne
    have hlen : t₁.entries.length = t.entries.length + list.length := by
      rw [← Asinfo.length_seen, hseen, List.length_append, Asinfo.length_seen, List.length_map]
    simp only [Option.none_or] at hr
    generalize ht₂ : ({
      t₁ with entries := t₁.entries.modify (t.entries.length + list.length - 1) fun as =>
      { as with attr := { as.attr with continued := false } } } : Asinfo) = t₂ at hr
    have hcores₂ : t₂.cores = t₁.cores := by
      rw [← ht₂]
      exact map_modify_eq fun _ => rfl
    have hlen₂ : t₂.entries.length = t.entries.length + list.length := by
      rw [← ht₂, ← hlen]
      exact List.length_modify ..
    cases hio : attr.overlay_io with
    | false =>
      simp only [hio, Bool.false_eq_true, if_false] at hr ⊢
      cases hr
      rw [List.append_nil, ← hcores, ← hcores₂]
    | true =>
      simp only [hio, if_true] at hr ⊢
      obtain ⟨t₃, ho, hr⟩ := bind_eq_ok.mp hr
      cases hr
      have hlenE : (entries name list).length = list.length := List.length_map _
      rw [overlayPieces_cores (entries name list) _ _ _ (by rw [hlenE, List.length_modify]; omega)
        (by simpa [entries] using hne) (fun i hi => ?_) ho, hcores₂, hcores]
      rw [hlenE] at hi
      have hs : t₁.seen[t.entries.length + i]? = some (list[i].entry name true) := by
        rw [hseen, List.getElem?_append_right (by simp), Asinfo.length_seen,
          Nat.add_sub_cancel_left, List.getElem?_map, List.getElem?_eq_getElem hi]
        rfl
      rw [Asinfo.seen, List.getElem?_map, Option.map_eq_some_iff] at hs
      obtain ⟨e, he, hes⟩ := hs
      have hes' : e.start = list[i].start ∧ e.end_ = list[i].end_ ∧ e.attr.continued = true := by
        simp only [AsinfoEntry.seen, AsRange.entry, AsinfoEntry.mk.injEq, AsAttr.mk.injEq] at hes
        exact ⟨hes.1, hes.2.1, hes.2.2.2.2.2.2.1⟩
      have hget : t₂.entries[t.entries.length + i]? =
          some (if t.entries.length + list.length - 1 = t.entries.length + i
          then { e with attr := { e.attr with continued := false } } else e) := by
        rw [← ht₂]
        simp only [List.getElem?_modify, he]
        split <;> rfl
      refine ⟨_, hget, ?_, ?_, ?_⟩
      · split <;> simp [entries, AsRange.entry, hes'.1]
      · split <;> simp [entries, AsRange.entry, hes'.2.1]
      · rw [hlenE]
        split
        case isTrue hlast => exact (decide_eq_false (by omega)).symm
        case isFalse hlast => exact hes'.2.2.trans (decide_eq_true (by omega)).symm

/-- What the entries that are appended show: they are apart, cover what the range has of the entries
that match, and each belongs to the last entry that contains it. -/
structure Pieces (t : Asinfo) (start end_ : ℕ) (name container : String)
    (pieces : List AsinfoEntry) : Prop where
  disjoint : pieces.Pairwise fun p q => ∀ x, p.Has x → ¬ q.Has x
  union : ∀ x, (∃ p ∈ pieces, p.Has x) ↔
    (start ≤ x ∧ x ≤ end_) ∧ ∃ e ∈ t.entries, Matches t.entries container e ∧ e.Has x
  named : ∀ p ∈ pieces, p.start ≤ p.end_ ∧ p.name = name
  owner : ∀ p ∈ pieces, ∃ i e, p.owner = some i ∧ t.entries[i]? = some e ∧
    Matches t.entries container e ∧
    (e.start ≤ p.start ∧ p.end_ ≤ e.end_) ∧ ∀ j f, i < j → t.entries[j]? = some f →
      Matches t.entries container f →
      ¬ (f.start ≤ p.start ∧ p.end_ ≤ f.end_)

/-- **The pieces of a range.**  In a table whose matching entries are nested, the old entries stay
as they are but for their attributes, and behind them come the pieces; `AS_OVERLAY_IO` puts another
entry over each of them. -/
theorem containing_spec {start end_ : ℕ} {attr : AsAttr} {name container : String} {t : Asinfo}
    {r : Option ℕ × Asinfo}
    (hn : Nested t.entries container) (hb : Bounded t.entries) (hreq : start ≤ end_)
    (h : as_add_containing start end_ attr name container t = .ok r) :
    ∃ pieces, Pieces t start end_ name container pieces ∧ r.2.cores = t.cores ++ pieces ++
      if attr.overlay_io then overlay name t.entries.length pieces else [] := by
  have ht : Tiles (collect t.entries start end_ container (t.entries.length + 1) none [])
      (lastOwner t.entries start end_ container t.entries.length) :=
    tiles_collect hn hb hreq _ none [] (Nat.zero_le _) (by simp [after]) .nil
  refine ⟨_, ?_, containing_cores ht.proper h⟩
  generalize collect t.entries start end_ container (t.entries.length + 1) none [] = list at ht
  refine ⟨?_, fun x => ⟨?_, ?_⟩, ?_, ?_⟩
  · rw [entries, List.pairwise_map]
    exact ht.apart.imp fun {p q} (ha : Detached p q) x (hx : p.Has x) => ha.not_has hx
  · rintro ⟨p, hp, hx⟩
    obtain ⟨q, hq, rfl⟩ := List.mem_map.mp hp
    obtain ⟨-, hr, ⟨e, he, hm, hex⟩, -⟩ := lastOwner_eq_some (ht.owns q hq x hx)
    exact ⟨hr, e, List.mem_of_getElem? he, hm, hex⟩
  · rintro ⟨hr, e, he, hm, hex⟩
    obtain ⟨i, hi⟩ := List.mem_iff_getElem?.mp he
    obtain ⟨j, hj, -⟩ := lastOwner_isSome (List.getElem?_eq_some_iff.mp hi).1 hi hm hex hr
    obtain ⟨q, hq, hqx⟩ := ht.covers x j hj
    exact ⟨q.entry name false, List.mem_map_of_mem hq, hqx⟩
  · rintro p hp
    obtain ⟨q, hq, rfl⟩ := List.mem_map.mp hp
    exact ⟨ht.proper q hq, rfl⟩
  · rintro p hp
    obtain ⟨q, hq, rfl⟩ := List.mem_map.mp hp
    have hprop := ht.proper q hq
    obtain ⟨-, -, ⟨e, he, hm, hlo⟩, hlast⟩ :=
      lastOwner_eq_some (ht.owns q hq q.start ⟨Nat.le_refl _, hprop⟩)
    obtain ⟨-, -, ⟨e', he', -, hhi⟩, -⟩ :=
      lastOwner_eq_some (ht.owns q hq q.end_ ⟨hprop, Nat.le_refl _⟩)
    rw [he, Option.some.injEq] at he'
    subst he'
    refine ⟨q.owner, e, rfl, he, hm, ⟨hlo.1, hhi.2⟩, fun j f hij hf hmf hc => ?_⟩
    exact hlast j f hij (List.getElem?_eq_some_iff.mp hf).1 hf hmf ⟨hc.1, hprop.trans hc.2⟩

/-- A memory of 64 KiB whose upper half is RAM. -/
def halves : Asinfo where
  entries := [⟨0, 0xffff, none, "memory", {}⟩, ⟨0x8000, 0xffff, some 0, "ram", {}⟩]
  room := 8

/-- The memory with a range of it added. -/
def halvesAdded : Option ℕ × Asinfo :=
  ((as_add_containing 0x4000 0xbfff {} "sysram" "memory" halves).toOption).getD (none, halves)

theorem nested_halves : Nested halves.entries "memory" := by
  refine ⟨by decide +kernel, ?_⟩
  rintro (_ | _ | i) (_ | _ | j) e f hij he hf
  all_goals first
    | omega
    | simp [halves] at he hf
  subst he hf
  exact fun _ _ => .inr ⟨by decide, by decide⟩

theorem containing_halves : ∃ pieces, Pieces halves 0x4000 0xbfff "sysram" "memory" pieces ∧
    halvesAdded.2.cores = halves.cores ++ pieces ++ [] :=
  @containing_spec _ _ {} _ _ _ _ nested_halves (by simp [Bounded, halves]) (by decide)
    (by decide +kernel)

/-- The entries that are appended. -/
def appended (start end_ : ℕ) (attr : AsAttr) (name container : String) (t : Asinfo) :
    List AsinfoEntry :=
  match as_add_containing start end_ attr name container t with
  | .ok r => r.2.entries.drop t.entries.length
  | .error _ => []

/-- A memory with a bank of no size before another bank. -/
def emptyBank : Asinfo where
  entries := [⟨0, 0xff, none, "memory", {}⟩, ⟨0x50, 0x4f, some 0, "ram", {}⟩,
    ⟨0x40, 0x60, some 0, "ram", {}⟩]
  room := 8

/-- Two places in the list of what is appended have an address in common. -/
theorem not_pairwise_of_has {l : List AsinfoEntry} {i j x : ℕ} {p q : AsinfoEntry} (hij : i < j)
    (hp : l[i]? = some p)
    (hq : l[j]? = some q) (hpx : p.Has x) (hqx : q.Has x) :
      ¬ l.Pairwise fun p q => ∀ x, p.Has x → ¬ q.Has x := by
  intro h
  obtain ⟨hi, rfl⟩ := List.getElem?_eq_some_iff.mp hp
  obtain ⟨hj, rfl⟩ := List.getElem?_eq_some_iff.mp hq
  exact List.pairwise_iff_getElem.mp h i j hi hj hij x hpx hqx

/-- The layer for `AS_OVERLAY_IO` lies over the pieces; and behind a bank of no size, a piece starts
within another. -/
theorem appended_overlap :
    ¬ (appended 0 0xff { overlay_io := true } "io" "memory" halves).Pairwise
      (fun p q => ∀ x, p.Has x → ¬ q.Has x) ∧
    ¬ (appended 0 0xff {} "sysram" "memory" emptyBank).Pairwise
      (fun p q => ∀ x, p.Has x → ¬ q.Has x) := by
  constructor
  · have hp : (appended 0 0xff { overlay_io := true } "io" "memory" halves)[0]? =
        some ⟨0, 0xff, some 0, "io", { kids := true }⟩ := by decide +kernel
    have hq : (appended 0 0xff { overlay_io := true } "io" "memory" halves)[1]? =
        some ⟨0, 0xff, some 2, "io", {}⟩ := by decide +kernel
    exact not_pairwise_of_has Nat.zero_lt_one hp hq (x := 0) ⟨Nat.le_refl _, Nat.zero_le _⟩
      ⟨Nat.le_refl _, Nat.zero_le _⟩
  · have hp : (appended 0 0xff {} "sysram" "memory" emptyBank)[1]? =
        some ⟨0x40, 0x60, some 2, "sysram", { continued := true }⟩ := by decide +kernel
    have hq : (appended 0 0xff {} "sysram" "memory" emptyBank)[2]? =
        some ⟨0x50, 0xff, some 0, "sysram", {}⟩ := by decide +kernel
    exact not_pairwise_of_has (Nat.lt_succ_self 1) hp hq (x := 0x50) ⟨by decide, by decide⟩
      ⟨by decide, by decide⟩

end Startup
