import Mathlib.Algebra.GroupWithZero.Nat
import Mathlib.Algebra.Ring.Int.Defs
import Mathlib.Data.List.Pairwise
import Mathlib.Data.Set.Lattice
import Mathlib.Order.CompletePartialOrder
import Mathlib.Order.Interval.Set.Basic
import Mathlib.Order.MinMax
import Mathlib.Tactic.Common
import Mathlib.Tactic.Order

/-!
# Support — spans

A *span* `⟨lo, hi⟩` over a linear order stands for the half-open interval `[lo, hi)`.  A list of
spans covers the union of its members.

* `Normal`: the members are proper, in ascending order, and separated by gaps.  A normal list is
  the only normal list with its cover, so a table kept normal is as good as the set it covers.
* `absorb`: one pass over an ascending list that joins every span to the spans it meets or
  touches.  `place` puts a new span into an ascending list; `place` and then `absorb` is the union.
* `Span.cut`: what is left of a span outside `[a, b)`, and `cutAll`, the same for a list: the
  difference.
-/

namespace Support

/-- The half-open interval `[lo, hi)`. -/
structure Span (α : Type*) where
  lo : α
  hi : α
deriving DecidableEq, Repr

variable {α : Type*} [LinearOrder α]

def Span.set (s : Span α) : Set α := Set.Ico s.lo s.hi

@[simp] theorem Span.mem_set {s : Span α} {x : α} : x ∈ s.set ↔ s.lo ≤ x ∧ x < s.hi := Iff.rfl

/-- The union of the members of `l`. -/
def cover (l : List (Span α)) : Set α := {x | ∃ s ∈ l, x ∈ s.set}

theorem mem_cover {l : List (Span α)} {x : α} : x ∈ cover l ↔ ∃ s ∈ l, x ∈ s.set := Iff.rfl

@[simp] theorem cover_nil : cover ([] : List (Span α)) = ∅ := by
  ext x; simp [cover]

@[simp] theorem cover_cons (s : Span α) (l : List (Span α)) :
    cover (s :: l) = s.set ∪ cover l := by
  ext x; simp [cover]

@[simp] theorem cover_append (l m : List (Span α)) : cover (l ++ m) = cover l ∪ cover m := by
  ext x; simp only [cover, Set.mem_ofPred_eq, List.mem_append, Set.mem_union]
  constructor
  · rintro ⟨s, h | h, hx⟩
    · exact .inl ⟨s, h, hx⟩
    · exact .inr ⟨s, h, hx⟩
  · rintro (⟨s, h, hx⟩ | ⟨s, h, hx⟩)
    · exact ⟨s, .inl h, hx⟩
    · exact ⟨s, .inr h, hx⟩

/-- Proper members, ascending, with a gap between any two. -/
structure Normal (l : List (Span α)) : Prop where
  gaps : l.Pairwise (fun s t => s.hi < t.lo)
  proper : ∀ s ∈ l, s.lo < s.hi

/-- Proper members whose lower ends do not descend. -/
structure Ascending (l : List (Span α)) : Prop where
  sorted : l.Pairwise (fun s t => s.lo ≤ t.lo)
  proper : ∀ s ∈ l, s.lo < s.hi

theorem Normal.nil : Normal ([] : List (Span α)) := ⟨.nil, by simp⟩

theorem normal_cons {s : Span α} {l : List (Span α)} :
    Normal (s :: l) ↔ s.lo < s.hi ∧ (∀ t ∈ l, s.hi < t.lo) ∧ Normal l := by
  constructor
  · rintro ⟨hg, hp⟩
    rw [List.pairwise_cons] at hg
    exact ⟨hp s (by simp), hg.1, hg.2, fun t ht => hp t (by simp [ht])⟩
  · rintro ⟨hs, hg, hl⟩
    refine ⟨List.pairwise_cons.mpr ⟨hg, hl.gaps⟩, fun t ht => ?_⟩
    rcases List.mem_cons.mp ht with rfl | ht
    · exact hs
    · exact hl.proper t ht

theorem ascending_cons {s : Span α} {l : List (Span α)} :
    Ascending (s :: l) ↔ s.lo < s.hi ∧ (∀ t ∈ l, s.lo ≤ t.lo) ∧ Ascending l := by
  constructor
  · rintro ⟨hg, hp⟩
    rw [List.pairwise_cons] at hg
    exact ⟨hp s (by simp), hg.1, hg.2, fun t ht => hp t (by simp [ht])⟩
  · rintro ⟨hs, hg, hl⟩
    refine ⟨List.pairwise_cons.mpr ⟨hg, hl.sorted⟩, fun t ht => ?_⟩
    rcases List.mem_cons.mp ht with rfl | ht
    · exact hs
    · exact hl.proper t ht

theorem Normal.ascending {l : List (Span α)} (h : Normal l) : Ascending l where
  sorted := h.gaps.imp_of_mem fun {s t} hs _ hst => by
    have := h.proper s hs; order
  proper := h.proper

/-- A member may be replaced by a normal list that lies within it. -/
theorem Normal.replace {l a m : List (Span α)} {s : Span α} (h : Normal (l ++ s :: m))
    (ha : Normal a) (hin : ∀ t ∈ a, s.lo ≤ t.lo ∧ t.hi ≤ s.hi) : Normal (l ++ a ++ m) := by
  obtain ⟨hl, hsm, hls⟩ := List.pairwise_append.mp h.gaps
  obtain ⟨hs, hm⟩ := List.pairwise_cons.mp hsm
  refine ⟨List.pairwise_append.mpr ⟨List.pairwise_append.mpr ⟨hl, ha.gaps, fun t ht u hu =>
    (hls t ht s (by simp)).trans_le (hin u hu).1⟩, hm, fun t ht u hu => ?_⟩, fun t ht => ?_⟩
  · rcases List.mem_append.mp ht with ht | ht
    · exact hls t ht u (by simp [hu])
    · exact (hin t ht).2.trans_lt (hs u hu)
  · rcases List.mem_append.mp ht with ht | ht
    · rcases List.mem_append.mp ht with ht | ht
      · exact h.proper t (by simp [ht])
      · exact ha.proper t ht
    · exact h.proper t (by simp [ht])

/-- A range that a normal list covers lies in one member. -/
theorem Normal.exists_of_subset {l : List (Span α)} (h : Normal l) {a b : α} (hab : a < b)
    (hsub : Set.Ico a b ⊆ cover l) : ∃ s ∈ l, s.lo ≤ a ∧ b ≤ s.hi := by
  obtain ⟨s, hs, hlo, hhi⟩ := hsub ⟨le_rfl, hab⟩
  refine ⟨s, hs, hlo, le_of_not_gt fun hlt => ?_⟩
  -- The end of the member would be in another one.
  obtain ⟨t, ht, htlo, hthi⟩ := hsub ⟨hhi.le, hlt⟩
  obtain ⟨i, hi, rfl⟩ := List.mem_iff_getElem.mp hs
  obtain ⟨j, hj, rfl⟩ := List.mem_iff_getElem.mp ht
  rcases Nat.lt_trichotomy i j with hij | rfl | hij
  · exact absurd (List.pairwise_iff_getElem.mp h.gaps i j hi hj hij) (not_lt_of_ge htlo)
  · exact lt_irrefl _ hthi
  · have := List.pairwise_iff_getElem.mp h.gaps j i hj hi hij
    exact absurd (this.trans_le (hlo.trans hhi.le)) (not_lt_of_gt hthi)

theorem normal_singleton {s : Span α} (h : s.lo < s.hi) : Normal [s] :=
  normal_cons.mpr ⟨h, by simp, .nil⟩

/-! ### Joining spans that meet or touch -/

/-- Join `p` to the members of `l` it meets or touches, and go on with the first it does not. -/
def absorb : Span α → List (Span α) → List (Span α)
  | p, [] => [p]
  | p, s :: l => if s.lo ≤ p.hi then absorb ⟨p.lo, max p.hi s.hi⟩ l else p :: absorb s l

theorem Ascending.join {p s : Span α} {l : List (Span α)} (h : Ascending (p :: s :: l)) :
    Ascending (⟨p.lo, max p.hi s.hi⟩ :: l) := by
  obtain ⟨hp, hlo, hl⟩ := ascending_cons.mp h
  exact ascending_cons.mpr ⟨lt_max_of_lt_left hp, fun t ht => hlo t (by simp [ht]),
    (ascending_cons.mp hl).2.2⟩

theorem cover_absorb : ∀ (l : List (Span α)) (p : Span α), Ascending (p :: l) →
    cover (absorb p l) = p.set ∪ cover l
  | [], p, _ => by simp [absorb]
  | s :: l, p, h => by
      obtain ⟨-, hlo, hl⟩ := ascending_cons.mp h
      have hps : p.lo ≤ s.lo := hlo s (by simp)
      simp only [absorb]
      split
      case isTrue hm =>
        have hjoin : (⟨p.lo, max p.hi s.hi⟩ : Span α).set = p.set ∪ s.set := by
          ext x; simp only [Span.mem_set, Set.mem_union, lt_max_iff]
          constructor
          · rintro ⟨h₁, h₂⟩
            rcases lt_or_ge x p.hi with h₃ | h₃
            · exact .inl ⟨h₁, h₃⟩
            · exact .inr ⟨by order, h₂.resolve_left (by order)⟩
          · rintro (⟨h₁, h₂⟩ | ⟨h₁, h₂⟩)
            · exact ⟨h₁, .inl h₂⟩
            · exact ⟨by order, .inr h₂⟩
        rw [cover_absorb l _ h.join, hjoin, cover_cons, Set.union_assoc]
      case isFalse hm =>
        rw [cover_cons, cover_absorb l s hl, cover_cons]

/-- `absorb` returns no lower end below the first. -/
theorem lo_le_of_mem_absorb : ∀ (l : List (Span α)) (p : Span α), Ascending (p :: l) →
    ∀ s ∈ absorb p l, p.lo ≤ s.lo
  | [], p, _, s, hs => by simp only [absorb, List.mem_singleton] at hs; rw [hs]
  | t :: l, p, h, s, hs => by
      obtain ⟨-, hlo, hl⟩ := ascending_cons.mp h
      simp only [absorb] at hs
      split at hs
      · exact lo_le_of_mem_absorb l ⟨p.lo, max p.hi t.hi⟩ h.join s hs
      · rcases List.mem_cons.mp hs with rfl | hs
        · rfl
        · exact (hlo t (by simp)).trans (lo_le_of_mem_absorb l t hl s hs)

theorem absorb_normal : ∀ (l : List (Span α)) (p : Span α), Ascending (p :: l) →
    Normal (absorb p l)
  | [], p, h => by
      simp only [absorb]
      exact normal_cons.mpr ⟨h.proper p (by simp), by simp, .nil⟩
  | s :: l, p, h => by
      obtain ⟨hp, -, hl⟩ := ascending_cons.mp h
      simp only [absorb]
      split
      · exact absorb_normal l _ h.join
      case isFalse hm =>
        refine normal_cons.mpr ⟨hp, fun t ht => ?_, absorb_normal l s hl⟩
        have := lo_le_of_mem_absorb l s hl t ht
        order

theorem absorb_of_normal : ∀ (l : List (Span α)) (p : Span α), Normal (p :: l) →
    absorb p l = p :: l
  | [], _, _ => rfl
  | s :: l, p, h => by
      obtain ⟨hp, hg, hl⟩ := normal_cons.mp h
      have hps : p.hi < s.lo := hg s (by simp)
      rw [absorb, if_neg (by order), absorb_of_normal l s hl]

/-- `absorb` does not lengthen a list. -/
theorem length_absorb_le : ∀ (l : List (Span α)) (p : Span α),
    (absorb p l).length ≤ l.length + 1
  | [], p => by simp [absorb]
  | s :: l, p => by
      simp only [absorb]
      split
      · have := length_absorb_le l ⟨p.lo, max p.hi s.hi⟩
        simp only [List.length_cons]; omega
      · have := length_absorb_le l s
        simp only [List.length_cons]; omega

/-! ### Putting a span in its place -/

/-- Insert `p` before the first member that starts after it. -/
def place (p : Span α) : List (Span α) → List (Span α)
  | [] => [p]
  | s :: l => if p.lo < s.lo then p :: s :: l else s :: place p l

theorem mem_place {p s : Span α} : ∀ {l : List (Span α)}, s ∈ place p l ↔ s = p ∨ s ∈ l
  | [] => by simp [place]
  | t :: l => by
      simp only [place]
      split
      · simp
      · simp only [List.mem_cons, mem_place (l := l)]; tauto

theorem cover_place (p : Span α) (l : List (Span α)) : cover (place p l) = p.set ∪ cover l := by
  ext x; simp only [mem_cover, mem_place, Set.mem_union]
  constructor
  · rintro ⟨s, rfl | hs, hx⟩
    · exact .inl hx
    · exact .inr ⟨s, hs, hx⟩
  · rintro (hx | ⟨s, hs, hx⟩)
    · exact ⟨p, .inl rfl, hx⟩
    · exact ⟨s, .inr hs, hx⟩

theorem place_ascending {p : Span α} (hp : p.lo < p.hi) : ∀ {l : List (Span α)}, Ascending l →
    Ascending (place p l)
  | [], h => ascending_cons.mpr ⟨hp, by simp, h⟩
  | s :: l, h => by
      obtain ⟨hs, hlo, hl⟩ := ascending_cons.mp h
      simp only [place]
      split
      case isTrue hlt =>
        refine ascending_cons.mpr ⟨hp, fun t ht => ?_, h⟩
        rcases List.mem_cons.mp ht with rfl | ht
        · exact hlt.le
        · exact hlt.le.trans (hlo t ht)
      case isFalse hge =>
        refine ascending_cons.mpr ⟨hs, fun t ht => ?_, place_ascending hp hl⟩
        rcases mem_place.mp ht with rfl | ht
        · exact not_lt.mp hge
        · exact hlo t ht

/-- Where `place` inserts: after the members that do not start after `p`. -/
theorem place_eq (p : Span α) (l : List (Span α)) :
    place p l = l.takeWhile (fun s => s.lo ≤ p.lo) ++ p :: l.dropWhile (fun s => s.lo ≤ p.lo) := by
  induction l with
  | nil => rfl
  | cons s l ih =>
      by_cases h : p.lo < s.lo
      · simp [place, h, not_le.mpr h]
      · simp [place, h, not_lt.mp h, ih]

/-- The pass of `absorb` over a whole list. -/
def joinAll : List (Span α) → List (Span α)
  | [] => []
  | p :: l => absorb p l

/-- `p` put into an ascending list and joined to what it meets or touches. -/
def unite (p : Span α) (l : List (Span α)) : List (Span α) := joinAll (place p l)

theorem joinAll_of_normal {l : List (Span α)} (h : Normal l) : joinAll l = l := by
  cases l with
  | nil => rfl
  | cons p l => exact absorb_of_normal l p h

/-- The pass leaves a normal beginning as it is. -/
theorem absorb_append : ∀ (l : List (Span α)) (p q : Span α) (m : List (Span α)),
    Normal (p :: (l ++ [q])) → absorb p (l ++ q :: m) = p :: (l ++ absorb q m)
  | [], p, q, m, h => by
      have hpq : p.hi < q.lo := (normal_cons.mp h).2.1 q (by simp)
      simp [absorb, not_le.mpr hpq]
  | s :: l, p, q, m, h => by
      have hps : p.hi < s.lo := (normal_cons.mp h).2.1 s (by simp)
      simp [absorb, not_le.mpr hps, absorb_append l s q m (normal_cons.mp h).2.2]

theorem joinAll_append {l : List (Span α)} {q : Span α} (m : List (Span α))
    (h : Normal (l ++ [q])) : joinAll (l ++ q :: m) = l ++ absorb q m := by
  cases l with
  | nil => rfl
  | cons p l => exact absorb_append l p q m h

theorem cover_unite {p : Span α} {l : List (Span α)} (hp : p.lo < p.hi) (hl : Normal l) :
    cover (unite p l) = p.set ∪ cover l := by
  have h := place_ascending hp hl.ascending
  have hc := cover_place p l
  rw [unite]
  cases hq : place p l with
  | nil => rw [hq] at hc; exact hc
  | cons q m => rw [hq] at h hc; rw [joinAll, cover_absorb m q h, ← hc, cover_cons]

/-- Where `place` puts a span between members that do not start after it and members that do. -/
theorem place_append {p : Span α} : ∀ {l m : List (Span α)}, (∀ s ∈ l, s.lo ≤ p.lo) →
    (∀ s ∈ m, p.lo < s.lo) → place p (l ++ m) = l ++ p :: m
  | [], [], _, _ => rfl
  | [], s :: m, _, hm => if_pos (hm s (by simp))
  | s :: l, m, hl, hm => by
      have hs : ¬ p.lo < s.lo := not_lt.mpr (hl s (by simp))
      rw [List.cons_append, place, if_neg hs, place_append (fun t ht => hl t (by simp [ht])) hm]
      rfl

/-! ### Cutting an interval out -/

/-- What is left of `s` outside `[a, b)`: nothing, `s` itself, or the parts below and above. -/
def Span.cut (a b : α) (s : Span α) : List (Span α) :=
  if b ≤ a ∨ s.hi ≤ a ∨ b ≤ s.lo then [s]
  else (if s.lo < a then [⟨s.lo, a⟩] else []) ++ (if b < s.hi then [⟨b, s.hi⟩] else [])

def cutAll (a b : α) (l : List (Span α)) : List (Span α) := l.flatMap (Span.cut a b)

theorem Span.cut_of_apart {a b : α} {s : Span α} (h : b ≤ a ∨ s.hi ≤ a ∨ b ≤ s.lo) :
    s.cut a b = [s] := if_pos h

theorem Span.cover_cut (a b : α) (s : Span α) : cover (s.cut a b) = s.set \ Set.Ico a b := by
  unfold Span.cut
  ext x
  split
  case isTrue h =>
    simp only [cover_cons, cover_nil, Set.union_empty, Set.mem_sdiff, Span.mem_set, Set.mem_Ico]
    constructor
    · exact fun hx => ⟨hx, fun hx' => by rcases h with h | h | h <;> order⟩
    · exact fun hx => hx.1
  case isFalse h =>
    push Not at h
    obtain ⟨h₁, h₂, h₃⟩ := h
    split <;> split <;>
      simp only [List.cons_append, List.nil_append, cover_cons, cover_nil, Set.union_empty,
        Set.mem_union, Set.mem_sdiff, Span.mem_set, Set.mem_Ico, Set.mem_empty_iff_false,
        not_and, not_lt, false_iff, and_imp, not_forall] <;> grind

theorem Span.mem_cut {a b : α} {s t : Span α} (hs : s.lo < s.hi) (ht : t ∈ s.cut a b) :
    s.lo ≤ t.lo ∧ t.lo < t.hi ∧ t.hi ≤ s.hi := by
  unfold Span.cut at ht
  split at ht
  · simp only [List.mem_singleton] at ht
    subst ht; exact ⟨le_rfl, hs, le_rfl⟩
  case isFalse h =>
    push Not at h
    obtain ⟨h₁, h₂, h₃⟩ := h
    rcases List.mem_append.mp ht with ht | ht <;> split at ht <;>
      simp only [List.mem_singleton, List.not_mem_nil] at ht <;> subst ht
    · exact ⟨le_rfl, ‹_›, h₂.le⟩
    · exact ⟨h₃.le, ‹_›, le_rfl⟩

theorem Span.cut_normal {a b : α} {s : Span α} (hs : s.lo < s.hi) : Normal (s.cut a b) := by
  refine ⟨?_, fun t ht => (Span.mem_cut hs ht).2.1⟩
  unfold Span.cut
  split
  · simp
  case isFalse h =>
    push Not at h
    split <;> split <;> simp [h.1]

theorem cover_cutAll (a b : α) (l : List (Span α)) :
    cover (cutAll a b l) = cover l \ Set.Ico a b := by
  induction l with
  | nil => simp [cutAll]
  | cons s l ih =>
      simp only [cutAll, List.flatMap_cons, cover_append, cover_cons, Span.cover_cut] at ih ⊢
      rw [ih, Set.union_sdiff_distrib]

/-- Members apart from `[a, b)` are left alone. -/
theorem cutAll_of_apart {a b : α} {l : List (Span α)}
    (h : ∀ s ∈ l, b ≤ a ∨ s.hi ≤ a ∨ b ≤ s.lo) : cutAll a b l = l := by
  induction l with
  | nil => rfl
  | cons s l ih =>
      rw [cutAll, List.flatMap_cons, Span.cut_of_apart (h s (by simp)), ← cutAll,
        ih fun t ht => h t (by simp [ht])]
      rfl

end Support
