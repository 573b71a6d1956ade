import Mathlib.Algebra.GroupWithZero.Nat
import Mathlib.Algebra.Ring.Int.Defs
import Mathlib.Data.List.Induction
import Mathlib.Data.Option.Basic
import Mathlib.Logic.Function.Basic
import Mathlib.Order.CompletePartialOrder

/-!
# Support — Radix

Radix trees whose tables are pages of a memory: `mem p i` is entry `i` of page `p`, and `child e`
the page an entry leads to, if any.

* `walk`, `lookup` — following a list of indices from a root;
* `Apart` — no page stands at two places, for the places that are used at all;
* `Same` — a write to other pages than those at some place: no walk and no lookup changes;
* `Link` — a fresh empty page below an empty entry: it is at one new place, and no lookup changes;
* `Put` — a write to a lowest table: every page stays where it is, and only lookups there change.
-/

namespace Support.Radix

variable {P I E R : Type*} (child : E → Option P) (mem : P → I → E)

/-- The page that `is` leads to from `p`. -/
def walk (p : P) (is : List I) : Option P :=
  is.foldl (fun o i => o.bind fun q => child (mem q i)) (some p)

/-- Entry `k` of the page that `is` leads to, or `z` if it leads nowhere. -/
def lookup (z : E) (p : P) (is : List I) (k : I) : E :=
  (walk child mem p is).elim z fun q => mem q k

@[simp] theorem walk_nil (p : P) : walk child mem p [] = some p := rfl

theorem walk_concat (p : P) (is : List I) (i : I) :
    walk child mem p (is ++ [i]) = (walk child mem p is).bind fun q => child (mem q i) := by
  simp [walk]

/-- The places that are used: whether `is` leads to a table below the root `r`. -/
def Closed (dom : R → List I → Prop) : Prop := ∀ r is i, dom r (is ++ [i]) → dom r is

/-- No page is at two places. -/
def Apart (root : R → P) (dom : R → List I → Prop) : Prop :=
  ∀ r is r' is' p, dom r is → dom r' is' → walk child mem (root r) is = some p →
    walk child mem (root r') is' = some p → r = r' ∧ is = is'

/-- Page `p` is at some place. -/
def Reached (root : R → P) (dom : R → List I → Prop) (p : P) : Prop :=
  ∃ r is, dom r is ∧ walk child mem (root r) is = some p

variable {child mem} {root : R → P} {dom : R → List I → Prop}

/-! ### Other pages -/

/-- The memory `mem'` is `mem` as far as pages that are at some place go. -/
structure Same (child : E → Option P) (root : R → P) (dom : R → List I → Prop)
    (mem mem' : P → I → E) : Prop where
  closed : Closed dom
  same : ∀ p, Reached child mem root dom p → mem' p = mem p

namespace Same

variable {mem' : P → I → E}

theorem walk (s : Same child root dom mem mem') {r : R} {is : List I} (h : dom r is) :
    walk child mem' (root r) is = walk child mem (root r) is := by
  induction is using List.reverseRecOn with
  | nil => rfl
  | append_singleton is j ih =>
      have hdi := s.closed r is j h
      rw [walk_concat, walk_concat, ih hdi]
      cases hw : Radix.walk child mem (root r) is with
      | none => rfl
      | some p => rw [Option.bind_some, Option.bind_some, s.same p ⟨r, is, hdi, hw⟩]

theorem reached (s : Same child root dom mem mem') {p : P} (h : Reached child mem' root dom p) :
    Reached child mem root dom p := by
  obtain ⟨r, is, hd, hw⟩ := h
  exact ⟨r, is, hd, (s.walk hd).symm.trans hw⟩

theorem lookup (s : Same child root dom mem mem') {z : E} {r : R} {is : List I} {k : I}
    (h : dom r is) :
    lookup child mem' z (root r) is k = lookup child mem z (root r) is k := by
  rw [Radix.lookup, Radix.lookup, s.walk h]
  cases hw : Radix.walk child mem (root r) is with
  | none => rfl
  | some p => exact congrFun (s.same p ⟨r, is, h, hw⟩) k

theorem apart_after (s : Same child root dom mem mem') (ha : Apart child mem root dom) :
    Apart child mem' root dom := by
  intro r is r' is' p h h' hw hw'
  rw [s.walk h] at hw
  rw [s.walk h'] at hw'
  exact ha r is r' is' p h h' hw hw'

end Same

/-! ### A new page -/

/-- As far as pages that are at some place go, the memory `mem'` is `mem` with the entry `i` of the
table at `path` set to `e`, which leads to the page `q`: one that was at no place and is empty. -/
structure Link (child : E → Option P) (root : R → P) (dom : R → List I → Prop) (z : E)
    (mem mem' : P → I → E) (r : R) (path : List I) (i : I) (e : E) (p q : P) : Prop where
  closed : Closed dom
  apart : Apart child mem root dom
  zero : child z = none
  fresh : ¬ Reached child mem root dom q
  empty : ∀ j, mem' q j = z
  above : walk child mem (root r) path = some p
  place : dom r (path ++ [i])
  old : child (mem p i) = none
  new : mem' p i = e
  leads : child e = some q
  same : ∀ p' j, Reached child mem root dom p' → ¬ (p' = p ∧ j = i) → mem' p' j = mem p' j

namespace Link

variable {z e : E} {mem' : P → I → E} {r₀ : R} {path : List I} {i₀ : I} {p q : P}

theorem old_place (l : Link child root dom z mem mem' r₀ path i₀ e p q) :
    walk child mem (root r₀) (path ++ [i₀]) = none := by
  rw [walk_concat, l.above]; exact l.old

open Classical in
/-- **The new page is at one place**, and every other place keeps its page. -/
theorem walk (l : Link child root dom z mem mem' r₀ path i₀ e p q) {r : R} {is : List I}
    (h : dom r is) : walk child mem' (root r) is =
      if r = r₀ ∧ is = path ++ [i₀] then some q else walk child mem (root r) is := by
  -- Induction from the right: the last step of a walk is the one that may be new.
  induction is using List.reverseRecOn with
  | nil => simp
  | append_singleton is j ih =>
      have hdi := l.closed r is j h
      rw [walk_concat, walk_concat, ih hdi]
      by_cases hat : r = r₀ ∧ is = path ++ [i₀]
      · obtain ⟨rfl, rfl⟩ := hat
        have hne : ¬ (r = r ∧ path ++ [i₀] ++ [j] = path ++ [i₀]) := by simp
        rw [if_pos ⟨rfl, rfl⟩, if_neg hne, l.old_place]
        simp [l.empty, l.zero]
      · rw [if_neg hat]
        cases hw : Radix.walk child mem (root r) is with
        | none =>
            have hne : ¬ (r = r₀ ∧ is ++ [j] = path ++ [i₀]) := by
              rintro ⟨rfl, heq⟩
              obtain ⟨rfl, -⟩ := List.append_inj' heq rfl
              rw [l.above] at hw; cases hw
            rw [if_neg hne]; rfl
        | some p' =>
            by_cases hhere : p' = p ∧ j = i₀
            · obtain ⟨rfl, rfl⟩ := hhere
              obtain ⟨rfl, rfl⟩ := l.apart r is r₀ path p' hdi (l.closed _ _ _ l.place) hw l.above
              rw [if_pos ⟨rfl, rfl⟩, Option.bind_some, l.new, l.leads]
            · have hne : ¬ (r = r₀ ∧ is ++ [j] = path ++ [i₀]) := by
                rintro ⟨rfl, heq⟩
                obtain ⟨rfl, hj⟩ := List.append_inj' heq rfl
                rw [l.above] at hw
                exact hhere ⟨(Option.some.inj hw).symm, List.singleton_inj.mp hj⟩
              rw [if_neg hne, Option.bind_some, Option.bind_some,
                l.same p' j ⟨r, is, hdi, hw⟩ hhere]

theorem reached (l : Link child root dom z mem mem' r₀ path i₀ e p q) {p' : P}
    (h : Reached child mem' root dom p') : p' = q ∨ Reached child mem root dom p' := by
  obtain ⟨r, is, hd, hw⟩ := h
  rw [l.walk hd] at hw
  split_ifs at hw with hat
  · exact .inl (Option.some.inj hw).symm
  · exact .inr ⟨r, is, hd, hw⟩

/-- Other lookups than the one that the link itself answers stay as they were. -/
theorem lookup (l : Link child root dom z mem mem' r₀ path i₀ e p q) {r : R} {is : List I} {k : I}
    (h : dom r is) (hk : ¬ (r = r₀ ∧ is ++ [k] = path ++ [i₀])) :
    lookup child mem' z (root r) is k = lookup child mem z (root r) is k := by
  rw [Radix.lookup, Radix.lookup, l.walk h]
  by_cases hat : r = r₀ ∧ is = path ++ [i₀]
  · obtain ⟨rfl, rfl⟩ := hat
    rw [if_pos ⟨rfl, rfl⟩, l.old_place]
    exact l.empty k
  · rw [if_neg hat]
    cases hw : Radix.walk child mem (root r) is with
    | none => rfl
    | some p' =>
        refine l.same p' k ⟨r, is, h, hw⟩ ?_
        rintro ⟨rfl, rfl⟩
        obtain ⟨rfl, rfl⟩ := l.apart r is r₀ path p' h (l.closed _ _ _ l.place) hw l.above
        exact hk ⟨rfl, rfl⟩

theorem apart_after (l : Link child root dom z mem mem' r₀ path i₀ e p q) :
    Apart child mem' root dom := by
  intro r is r' is' p' h h' hw hw'
  rw [l.walk h] at hw
  rw [l.walk h'] at hw'
  split_ifs at hw hw' with h₁ h₂ h₂
  · exact ⟨h₁.1.trans h₂.1.symm, h₁.2.trans h₂.2.symm⟩
  · cases hw
    exact absurd ⟨r', is', h', hw'⟩ l.fresh
  · cases hw'
    exact absurd ⟨r, is, h, hw⟩ l.fresh
  · exact l.apart r is r' is' p' h h' hw hw'

end Link

/-! ### A lowest table -/

/-- The memory `mem'` is `mem` outside the page `p`, a table below which no place is used. -/
structure Put (child : E → Option P) (root : R → P) (dom : R → List I → Prop)
    (mem mem' : P → I → E) (r : R) (path : List I) (p : P) : Prop where
  closed : Closed dom
  apart : Apart child mem root dom
  at_ : Radix.walk child mem (root r) path = some p
  place : dom r path
  lowest : ∀ i, ¬ dom r (path ++ [i])
  same : ∀ p' j, p' ≠ p → mem' p' j = mem p' j

namespace Put

variable {mem' : P → I → E} {r₀ : R} {path : List I} {p : P}

/-- The entries of a lowest table lead nowhere that matters. -/
theorem walk (u : Put child root dom mem mem' r₀ path p) {r : R} {is : List I} (h : dom r is) :
    walk child mem' (root r) is = walk child mem (root r) is := by
  induction is using List.reverseRecOn with
  | nil => rfl
  | append_singleton is j ih =>
      have hdi := u.closed r is j h
      rw [walk_concat, walk_concat, ih hdi]
      cases hw : Radix.walk child mem (root r) is with
      | none => rfl
      | some p' =>
          have hne : p' ≠ p := by
            rintro rfl
            obtain ⟨rfl, rfl⟩ := u.apart r is r₀ path p' hdi u.place hw u.at_
            exact u.lowest j h
          rw [Option.bind_some, Option.bind_some, u.same p' j hne]

theorem reached (u : Put child root dom mem mem' r₀ path p) {p' : P}
    (h : Reached child mem' root dom p') : Reached child mem root dom p' := by
  obtain ⟨r, is, hd, hw⟩ := h
  exact ⟨r, is, hd, (u.walk hd).symm.trans hw⟩

theorem lookup (u : Put child root dom mem mem' r₀ path p) {z : E} {r : R} {is : List I} {k : I}
    (h : dom r is) (hk : r = r₀ → is = path → mem' p k = mem p k) :
    lookup child mem' z (root r) is k = lookup child mem z (root r) is k := by
  rw [Radix.lookup, Radix.lookup, u.walk h]
  cases hw : Radix.walk child mem (root r) is with
  | none => rfl
  | some p' =>
      by_cases hpp : p' = p
      · subst hpp
        obtain ⟨rfl, rfl⟩ := u.apart r is r₀ path p' h u.place hw u.at_
        exact hk rfl rfl
      · exact u.same p' k hpp

theorem apart_after (u : Put child root dom mem mem' r₀ path p) : Apart child mem' root dom := by
  intro r is r' is' p' h h' hw hw'
  rw [u.walk h] at hw
  rw [u.walk h'] at hw'
  exact u.apart r is r' is' p' h h' hw hw'

end Put

end Support.Radix
