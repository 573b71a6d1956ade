import RpiBsp.Startup.Asinfo.Definitions
import RpiBsp.Support.Outcome

/-!
# Startup — Asinfo — the table

Searching and extending the section, read off its entries without their attributes (`cores`):
`as_add` marks the owner of the entry it appends, and nothing else of a table ever depends on the
marks.

* `find_none`, `find_some` — what `as_find_containing` found, or passed over;
* `Rooted.match_name_iff` — where no entry of another name lies below a `"sysram"` entry, a search
  for `"sysram"` finds the entries of that name;
* `as_add_cores` — `as_add` appends one entry.
-/

namespace Startup

open Support

/-! ### Entries without attributes -/

def AsinfoEntry.core (e : AsinfoEntry) : AsinfoEntry := { e with attr := {} }

@[simp] theorem AsinfoEntry.core_start (e : AsinfoEntry) : e.core.start = e.start := rfl
@[simp] theorem AsinfoEntry.core_end_ (e : AsinfoEntry) : e.core.end_ = e.end_ := rfl
@[simp] theorem AsinfoEntry.core_owner (e : AsinfoEntry) : e.core.owner = e.owner := rfl
@[simp] theorem AsinfoEntry.core_name (e : AsinfoEntry) : e.core.name = e.name := rfl

def Asinfo.cores (t : Asinfo) : List AsinfoEntry := t.entries.map AsinfoEntry.core

/-- A change that a projection does not see. -/
theorem map_modify_eq {α β : Type} {E : List α} {o : ℕ} {f : α → α} {g : α → β}
    (hf : ∀ e, g (f e) = g e) :
    (E.modify o f).map g = E.map g := by
  refine List.ext_getElem? fun i => ?_
  rw [List.getElem?_map, List.getElem?_map, List.getElem?_modify]
  cases E[i]? with
  | none => rfl
  | some e => by_cases ho : o = i <;> simp [ho, hf]

theorem map_core_modify_at {P Q : List AsinfoEntry} {e : AsinfoEntry} {E : List AsinfoEntry}
    {o : ℕ} {f : AsinfoEntry → AsinfoEntry} (hE : E.map .core = P ++ e :: Q) (ho : o = P.length)
    (hf : ∀ a, (f a).core = f a.core) :
    (E.modify o f).map AsinfoEntry.core = P ++ f e :: Q := by
  have hmap : (E.modify o f).map AsinfoEntry.core = (E.map AsinfoEntry.core).modify o f := by
    refine List.ext_getElem? fun i => ?_
    rw [List.getElem?_map, List.getElem?_modify, List.getElem?_modify, List.getElem?_map]
    cases E[i]? with
    | none => rfl
    | some a => by_cases ho : o = i <;> simp [ho, hf]
  rw [hmap, hE, ho, List.modify_eq_take_cons_drop (by simp)]
  simp

/-! ### Searching -/

theorem match_name_map_core (E : List AsinfoEntry) (name : String) : ∀ (fuel : ℕ) (e : AsinfoEntry),
    match_name (E.map .core) name fuel e.core = match_name E name fuel e
  | 0, _ => rfl
  | fuel + 1, e => by
      rw [match_name, match_name]
      simp only [AsinfoEntry.core_name, AsinfoEntry.core_owner, List.getElem?_map]
      cases e.owner with
      | none => rfl
      | some o =>
          dsimp only
          cases E[o]? with
          | none => rfl
          | some own => simp only [Option.map_some, match_name_map_core E name fuel own]

/-- The index at which a search after `off` starts. -/
def after : Option ℕ → ℕ
  | none => 0
  | some o => o + 1

/-- Whether a search stops at the entry. -/
def Stops (L : List AsinfoEntry) (start end_ : ℕ) (container : String) (e : AsinfoEntry) : Prop :=
  match_name L container (L.length + 1) e = true ∧ e.meets start end_ = true

theorem find_eq (t : Asinfo) (off : Option ℕ) (start end_ : ℕ) (container : String) :
    as_find_containing t.entries off start end_ container =
      ((t.cores.drop (after off)).findIdx? fun e =>
        match_name t.cores container (t.cores.length + 1) e && e.meets start end_).map
          (after off + ·) := by
  have hdef : as_find_containing t.entries off start end_ container =
      ((t.entries.drop (after off)).findIdx? fun e =>
        match_name t.entries container (t.entries.length + 1) e && e.meets start end_).map
          (after off + ·) := by cases off <;> rfl
  have hmeets : ∀ e : AsinfoEntry, e.core.meets start end_ = e.meets start end_ := fun _ => rfl
  rw [hdef, Asinfo.cores, ← List.map_drop, List.findIdx?_map, List.length_map]
  simp only [Function.comp_def, match_name_map_core, hmeets]

section Find

variable {t : Asinfo} {off : Option ℕ} {start end_ : ℕ} {container : String}
  {D R : List AsinfoEntry}

theorem find_none (hE : t.cores = D ++ R) (ho : after off = D.length)
    (h : as_find_containing t.entries off start end_ container = none) :
    ∀ e ∈ R, ¬ Stops t.cores start end_ container e := by
  rw [find_eq, ho, hE, List.drop_left, Option.map_eq_none_iff, List.findIdx?_eq_none_iff] at h
  intro e he hs
  have := h e he
  rw [← hE, hs.1, hs.2] at this
  cases this

theorem find_some (hE : t.cores = D ++ R) (ho : after off = D.length) {o : ℕ}
    (h : as_find_containing t.entries off start end_ container = some o) :
    ∃ S e Q, R = S ++ e :: Q ∧ o = D.length + S.length ∧ Stops t.cores start end_ container e ∧
      ∀ f ∈ S, ¬ Stops t.cores start end_ container f := by
  rw [find_eq, ho, Option.map_eq_some_iff] at h
  obtain ⟨k, hk, rfl⟩ := h
  rw [hE, List.drop_left, ← hE, List.findIdx?_eq_some_iff_getElem] at hk
  obtain ⟨hlt, hp, hlater⟩ := hk
  have hp' : Stops t.cores start end_ container R[k] := by simpa [Stops] using hp
  refine ⟨R.take k, R[k], R.drop (k + 1), ?_, ?_, hp', ?_⟩
  · rw [← List.drop_eq_getElem_cons hlt, List.take_append_drop]
  · rw [List.length_take_of_le hlt.le]
  · intro f hf hs
    obtain ⟨j, hj, rfl⟩ := List.mem_take_iff_getElem.mp hf
    refine hlater j (by omega) ?_
    rw [hs.1, hs.2]
    rfl

end Find

/-! ### Owners -/

/-- An entry that is not named `"sysram"` is owned by an earlier one that is not either. -/
def Rooted (L : List AsinfoEntry) : Prop :=
  ∀ (i : ℕ) (e : AsinfoEntry), L[i]? = some e → e.name ≠ "sysram" → ∀ o, e.owner = some o →
    ∃ own, L[o]? = some own ∧ own.name ≠ "sysram"

theorem Rooted.not_match {L : List AsinfoEntry} (h : Rooted L) : ∀ (fuel i : ℕ) (e : AsinfoEntry),
    L[i]? = some e → e.name ≠ "sysram" → match_name L "sysram" fuel e = false
  | 0, _, _, _, _ => rfl
  | fuel + 1, i, e, hi, hne => by
      rw [match_name, if_neg hne]
      cases ho : e.owner with
      | none => rfl
      | some o =>
          obtain ⟨own, hown, hne'⟩ := h i e hi hne o ho
          simp only [hown]
          exact h.not_match fuel o own hown hne'

theorem Rooted.match_name_iff {L : List AsinfoEntry} (h : Rooted L) {e : AsinfoEntry} (he : e ∈ L)
    (n : ℕ) : match_name L "sysram" (n + 1) e = true ↔ e.name = "sysram" := by
  obtain ⟨i, hi⟩ := List.mem_iff_getElem?.mp he
  by_cases hne : e.name = "sysram"
  · simp [match_name, hne]
  · rw [h.not_match (n + 1) i e hi hne]
    simp [hne]

/-! ### `as_add` -/

theorem as_add_cores (start end_ : ℕ) {attr : AsAttr} (name : String) (owner : Option ℕ)
    (t : Asinfo) (hio : attr.overlay_io = false) :
    as_add start end_ attr name owner t = .error .syspage_overflow ∨
    ∃ t', as_add start end_ attr name owner t = .ok (t.entries.length, t') ∧
      t'.cores = t.cores ++ [⟨start, end_, owner, name, {}⟩] := by
  by_cases hroom : t.room = 0
  · left
    simp [as_add, as_append, hroom, bind, Except.bind]
  · right
    refine ⟨_, by simp only [as_add, as_append, hroom, if_false, bind, Except.bind, hio]; rfl, ?_⟩
    cases owner with
    | none => simp [Asinfo.cores, AsinfoEntry.core]
    | some o =>
        simp only [Asinfo.cores]
        rw [map_modify_eq]
        · simp [AsinfoEntry.core]
        · exact fun _ => rfl

end Startup
