import RpiBsp.Sdmmc.Definitions
import Mathlib.Data.Int.Notation

/-!
# Sdmmc — card removal

The handles of a card (`card.c`) and the card detect thread (`sdio_cd` in `base.c`), which waits for
the requests of a handle before it tells the client that the card is gone.  Clients, the interrupt
and the thread take turns in any order; what one of them does under the mutex is one step.  A client
makes no request on a handle that it has detached. `usage` does not wrap: a request takes a thread.

A handle that is detached while `sdio_cd` waits for it is read after it was freed.  Here it keeps
its last `usage`, which is 0; whatever else is read there only delays the callback.

* `Quiet` — what is asked while the card is gone.
* `removal_run` — the usage counts are never negative; and the card is quiet in every run in which
  `sdio_cd` finds at most one handle, and no request passes on a handle that is being detached.
-/

namespace Sdmmc.Removal

/-! ### Definitions -/

/-- `struct sdio_device`.  The last three fields are not part of the code: the requests in progress;
a detach has found the handle unused; and it was taken off the list. -/
structure Handle where
  path : ℕ
  generation : ℕ
  /-- `DEV_FLAG_RMV_PENDING`. -/
  rmv_pending : Bool := false
  usage : ℤ := 0
  inProgress : ℕ := 0
  detaching : Bool := false
  freed : Bool := false
deriving DecidableEq, Repr

/-- Where `sdio_cd` is; `ins` is `CD_INS` of the card detect state. -/
inductive Cd where
  | idle
  | clear (ins : Bool)
  | test (ins : Bool)
  | lookup (ins : Bool)
  | waiting (ins : Bool) (i : ℕ)
  | insert (ins : Bool)
  | ident
deriving DecidableEq, Repr

/-- `sdio_hc_t` and its device.  The list holds every handle that was attached, in the order of
`sdio_ctrl.dlist`. `removed` is not part of the code: the removal callback was invoked, and the card
is not attached again. -/
structure Card where
  path : ℕ
  generation : ℕ
  handles : List Handle
  /-- `DEV_FLAG_MEDIA_CHANGE`, `DEV_FLAG_PRESENT` and `DEV_FLAG_INVALID_CARD`. -/
  media_change : Bool
  present : Bool
  invalid : Bool
  cd : Cd
  removed : Bool
deriving DecidableEq, Repr

/-- `_sdio_synchronize`. -/
def _sdio_synchronize (media_change : Bool) (h : Handle) (io : Bool) (ncmds : ℤ) : Errno × Handle :=
  if io = false then
    let h := { h with rmv_pending := true }
    if h.usage ≠ 0 then (.ebusy, h) else (.eok, h)
  else if 0 ≤ ncmds then
    if h.rmv_pending ∨ media_change then (.enxio, h)
    else (.eok, { h with usage := h.usage + ncmds })
  else (.eok, { h with usage := h.usage + ncmds })

/-- A request begins, if it passes. -/
def request (media_change : Bool) (h : Handle) : Option Handle :=
  if h.freed then none
  else
    let r := _sdio_synchronize media_change h true 1
    some (if r.1 = .eok then { r.2 with inProgress := r.2.inProgress + 1 } else r.2)

/-- A request ends. -/
def finish (media_change : Bool) (h : Handle) : Option Handle :=
  if h.inProgress = 0 then none
  else
    let r := _sdio_synchronize media_change h true (-1)
    some { r.2 with inProgress := r.2.inProgress - 1 }

/-- The test of `sdio_detach`, which does not take the mutex. -/
def detachTest (h : Handle) : Option Handle :=
  if h.freed then none else some (if h.usage ≠ 0 then h else { h with detaching := true })

/-- The rest of `sdio_detach`. -/
def detachRemove (h : Handle) : Option Handle :=
  if h.detaching ∧ ¬ h.freed then some { h with freed := true } else none

/-- `sdio_attach`. -/
def sdio_attach (s : Card) : Option Card :=
  if s.present then some { s with handles := s.handles ++
    [{ path := s.path, generation := s.generation }] } else none

/-- A step on one handle. -/
def onHandle (s : Card) (i : ℕ) (f : Handle → Option Handle) : Option Card :=
  match s.handles[i]? with
  | none => none
  | some h => (f h).map fun h' => { s with handles := s.handles.set i h' }

/-- A handle on the list, of the card's path and generation. -/
def Card.Listed (s : Card) (h : Handle) : Bool :=
  !h.freed && decide (h.path = s.path) && decide (h.generation = s.generation)

/-- The first handle that `sdio_cd` finds. -/
def Card.find (s : Card) : Option ℕ := s.handles.findIdx? s.Listed

/-- The mark of `sdio_cd`. -/
def mark (h : Handle) : Handle := { h with rmv_pending := true }

/-- The next step of `sdio_cd`: `ins` is what the controller says, and `ok` whether the card can be
identified. -/
def cdStep (ins ok : Bool) (s : Card) : Option Card :=
  match s.cd with
  | .idle => some { s with cd := if s.media_change ∨ ins = false then .clear ins else .insert ins }
  | .clear ins => some { s with media_change := false, invalid := false, cd := .test ins }
  | .test ins =>
      some (if s.present then { s with present := false, cd := .lookup ins }
        else { s with cd := .insert ins })
  | .lookup ins =>
      match s.find with
      | none => some { s with cd := .insert ins }
      | some i => some { s with
          handles := s.handles.modify i mark, cd := .waiting ins i }
  | .waiting ins i =>
      match s.handles[i]? with
      | none => none
      -- The handle may have been freed by now.
      | some h => if h.usage ≠ 0 then none else some { s with removed := true, cd := .insert ins }
  | .insert ins =>
      some (if ins ∧ ¬ s.present ∧ ¬ s.invalid then { s with media_change := false, cd := .ident }
        else { s with cd := .idle })
  | .ident =>
      some (if ok then { s with present := true, removed := false, cd := .idle }
        else { s with invalid := true, cd := .idle })

/-- What happens next. -/
inductive Action where
  | request (i : ℕ)
  | finish (i : ℕ)
  | detachTest (i : ℕ)
  | detachRemove (i : ℕ)
  | attach
  /-- `sdio_hc_event` with `HC_EV_CD`. -/
  | event
  | cd (ins ok : Bool)
deriving DecidableEq, Repr

def step (s : Card) : Action → Option Card
  | .request i => onHandle s i (Removal.request s.media_change)
  | .finish i => onHandle s i (Removal.finish s.media_change)
  | .detachTest i => onHandle s i Removal.detachTest
  | .detachRemove i => onHandle s i Removal.detachRemove
  | .attach => sdio_attach s
  | .event => some { s with media_change := true }
  | .cd ins ok => cdStep ins ok s

/-- A run: an action that cannot be taken is left out. -/
def run (s : Card) (actions : List Action) : Card := actions.foldl (fun s a => (step s a).getD s) s

/-- A slot before the first card. -/
def empty (path generation : ℕ) : Card := ⟨path, generation, [], false, false, false, .idle, false⟩

/-! ### What is asked -/

/-- While the card is gone, no request is in progress, and none passes. -/
def Quiet (s : Card) : Prop :=
  s.removed = true → ∀ h ∈ s.handles, h.inProgress = 0 ∧
    (h.freed = false → (_sdio_synchronize s.media_change h true 1).1 ≠ .eok)

instance (s : Card) : Decidable (Quiet s) := inferInstanceAs (Decidable (_ → _))

/-- `sdio_cd` looks for the handle. -/
def Cd.looking : Cd → Bool
  | .lookup _ => true
  | _ => false

/-- What a step needs: `sdio_cd` finds at most one handle, and no request passes on a handle that is
being detached. -/
def Alone (s : Card) : Action → Prop
  | .cd _ _ => s.cd.looking = true → s.handles.countP s.Listed ≤ 1
  | .request i =>
      ∀ h ∈ s.handles[i]?, h.detaching = true → (_sdio_synchronize s.media_change h true 1).1 ≠ .eok
  | _ => True

instance (s : Card) : (a : Action) → Decidable (Alone s a)
  | .cd _ _ => inferInstanceAs (Decidable (_ → _))
  | .request _ => inferInstanceAs (Decidable (∀ _ ∈ _, _))
  | .finish _ => inferInstanceAs (Decidable True)
  | .detachTest _ => inferInstanceAs (Decidable True)
  | .detachRemove _ => inferInstanceAs (Decidable True)
  | .attach => inferInstanceAs (Decidable True)
  | .event => inferInstanceAs (Decidable True)

/-- Every step of a run meets a condition. -/
def Always (P : Card → Action → Prop) : Card → List Action → Prop
  | _, [] => True
  | s, a :: actions => P s a ∧ Always P ((step s a).getD s) actions

instance : (s : Card) → (actions : List Action) → Decidable (Always Alone s actions)
  | _, [] => inferInstanceAs (Decidable True)
  | s, a :: actions =>
      have := instDecidableAlwaysAlone ((step s a).getD s) actions
      inferInstanceAs (Decidable (_ ∧ _))

/-! ### One handle -/

/-- What every step on a handle keeps. -/
structure Moved (h h' : Handle) : Prop where
  path : h'.path = h.path
  generation : h'.generation = h.generation
  freed : h.freed = true → h'.freed = true
  pending : h.rmv_pending = true → h'.rmv_pending = true
  counted : h.usage = h.inProgress → h'.usage = h'.inProgress
  quiet : h.inProgress = 0 → h.rmv_pending = true ∨ h.freed = true → h'.inProgress = 0

/-- No request is in progress on a handle that is being detached, or was. -/
def Handle.Unused (h : Handle) : Prop := h.detaching = true ∨ h.freed = true → h.inProgress = 0

theorem sync_request (media_change : Bool) (h : Handle) : _sdio_synchronize media_change h true 1 =
    if h.rmv_pending ∨ media_change then (.enxio, h) else (.eok, { h with usage := h.usage + 1 }) :=
  rfl

theorem sync_finish (media_change : Bool) (h : Handle) :
    _sdio_synchronize media_change h true (-1) = (.eok, { h with usage := h.usage + -1 }) := rfl

theorem sync_passes {media_change : Bool} {h : Handle} :
    (_sdio_synchronize media_change h true 1).1 = .eok ↔ ¬ (h.rmv_pending ∨ media_change) := by
  rw [sync_request]
  split
  · rename_i hbad
    exact ⟨fun h => (nomatch h), fun hno => absurd hbad hno⟩
  · rename_i hok
    exact ⟨fun _ => hok, fun _ => rfl⟩

/-- A request passes, or it does nothing. -/
theorem request_cases {media_change : Bool} {h h' : Handle}
    (hr : request media_change h = some h') :
    h.freed = false ∧ (h' = h ∨ ¬ (h.rmv_pending ∨ media_change) ∧
      h' = { h with usage := h.usage + 1, inProgress := h.inProgress + 1 }) := by
  unfold request at hr
  split at hr
  · exact (nomatch hr)
  · rename_i hfreed
    refine ⟨Bool.eq_false_iff.mpr hfreed, ?_⟩
    rw [sync_request] at hr
    by_cases hbad : h.rmv_pending ∨ media_change
    · rw [if_pos hbad] at hr
      exact Or.inl (Option.some.inj hr).symm
    · rw [if_neg hbad] at hr
      exact Or.inr ⟨hbad, (Option.some.inj hr).symm⟩

theorem finish_cases {media_change : Bool} {h h' : Handle} (hr : finish media_change h = some h') :
    h.inProgress ≠ 0 ∧ h' = { h with usage := h.usage + -1, inProgress := h.inProgress - 1 } := by
  unfold finish at hr
  split at hr
  · exact (nomatch hr)
  · rename_i hne
    rw [sync_finish] at hr
    exact ⟨hne, (Option.some.inj hr).symm⟩

theorem detachTest_cases {h h' : Handle} (hr : detachTest h = some h') :
    h' = h ∨ h.usage = 0 ∧ h' = { h with detaching := true } := by
  unfold detachTest at hr
  split at hr
  · exact (nomatch hr)
  · obtain rfl := Option.some.inj hr
    split
    · exact Or.inl rfl
    · rename_i hzero
      exact Or.inr ⟨not_not.mp hzero, rfl⟩

theorem detachRemove_cases {h h' : Handle} (hr : detachRemove h = some h') :
    h.detaching = true ∧ h' = { h with freed := true } := by
  unfold detachRemove at hr
  split at hr
  · rename_i hboth
    exact ⟨hboth.1, (Option.some.inj hr).symm⟩
  · exact (nomatch hr)

theorem Moved.refl (h : Handle) : Moved h h := ⟨rfl, rfl, id, id, id, fun hz _ => hz⟩

theorem request_moved {media_change : Bool} {h h' : Handle}
    (hr : request media_change h = some h') : Moved h h' := by
  obtain ⟨hfreed, rfl | ⟨hok, rfl⟩⟩ := request_cases hr
  · exact Moved.refl _
  · refine ⟨rfl, rfl, id, id, fun hc => ?_, fun _ hq => ?_⟩
    · dsimp only
      omega
    · rcases hq with hq | hq
      · exact absurd (Or.inl hq) hok
      · exact absurd (hfreed.symm.trans hq) (by decide)

theorem finish_moved {media_change : Bool} {h h' : Handle} (hr : finish media_change h = some h') :
    Moved h h' := by
  obtain ⟨hne, rfl⟩ := finish_cases hr
  refine ⟨rfl, rfl, id, id, fun hc => ?_, fun hz _ => absurd hz hne⟩
  dsimp only
  omega

theorem detachTest_moved {h h' : Handle} (hr : detachTest h = some h') : Moved h h' := by
  rcases detachTest_cases hr with rfl | ⟨_, rfl⟩
  · exact Moved.refl _
  · exact ⟨rfl, rfl, id, id, id, fun hz _ => hz⟩

theorem detachRemove_moved {h h' : Handle} (hr : detachRemove h = some h') : Moved h h' := by
  obtain ⟨_, rfl⟩ := detachRemove_cases hr
  exact ⟨rfl, rfl, fun _ => rfl, id, id, fun hz _ => hz⟩

/-! ### The usage counts -/

/-- The usage count of every handle is the number of its requests. -/
def Counted (s : Card) : Prop := ∀ h ∈ s.handles, h.usage = h.inProgress

theorem onHandle_cases {s s' : Card} {i : ℕ} {f : Handle → Option Handle}
    (h : onHandle s i f = some s') :
    ∃ x x', s.handles[i]? = some x ∧ f x = some x' ∧
    s' = { s with handles := s.handles.set i x' } := by
  unfold onHandle at h
  split at h
  · exact (nomatch h)
  · rename_i x hx
    obtain ⟨x', hx', rfl⟩ := Option.map_eq_some_iff.mp h
    exact ⟨x, x', hx, hx', rfl⟩

/-- The step of one handle. -/
theorem onHandle_moved {s s' : Card} {i : ℕ} {f : Handle → Option Handle}
    (h : onHandle s i f = some s') (hf : ∀ x x', f x = some x' → Moved x x') :
    ∃ x x', s.handles[i]? = some x ∧ f x = some x' ∧ Moved x x' ∧
    s' = { s with handles := s.handles.set i x' } := by
  obtain ⟨x, x', hx, hfx, hs'⟩ := onHandle_cases h
  exact ⟨x, x', hx, hfx, hf x x' hfx, hs'⟩

theorem mem_set {l : List Handle} {i : ℕ} {x y : Handle} (h : y ∈ l.set i x) : y = x ∨ y ∈ l := by
  rcases List.mem_or_eq_of_mem_set h with h | h
  · exact Or.inr h
  · exact Or.inl h

theorem mem_modify {l : List Handle} {i : ℕ} {f : Handle → Handle} {y : Handle}
    (h : y ∈ l.modify i f) :
    y ∈ l ∨ ∃ x ∈ l, y = f x := by
  obtain ⟨j, hj⟩ := List.mem_iff_getElem?.mp h
  rw [List.getElem?_modify] at hj
  obtain ⟨x, hx, hy⟩ := Option.map_eq_some_iff.mp hj
  have hmem := List.mem_of_getElem? hx
  split at hy
  · exact Or.inr ⟨x, hmem, hy.symm⟩
  · exact Or.inl (hy ▸ hmem)

theorem onHandle_counted {s s' : Card} {i : ℕ} {f : Handle → Option Handle}
    (h : onHandle s i f = some s')
    (hf : ∀ x x', f x = some x' → Moved x x') (hc : Counted s) : Counted s' := by
  obtain ⟨x, x', hx, -, hmoved, rfl⟩ := onHandle_moved h hf
  intro y hy
  rcases mem_set hy with rfl | hy
  · exact hmoved.counted (hc x (List.mem_of_getElem? hx))
  · exact hc y hy

/-- The steps of `sdio_cd`: what they do to the handles. -/
theorem cdStep_handles {ins ok : Bool} {s s' : Card} (h : cdStep ins ok s = some s') :
    s'.handles = s.handles ∨ ∃ i, s'.handles = s.handles.modify i mark := by
  unfold cdStep at h
  split at h
  · exact Or.inl (by rw [← Option.some.inj h])
  · exact Or.inl (by rw [← Option.some.inj h])
  · rw [← Option.some.inj h]
    split <;> exact Or.inl rfl
  · split at h
    · exact Or.inl (by rw [← Option.some.inj h])
    · rename_i i _
      exact Or.inr ⟨i, by rw [← Option.some.inj h]⟩
  · split at h
    · exact (nomatch h)
    · split at h
      · exact (nomatch h)
      · exact Or.inl (by rw [← Option.some.inj h])
  · rw [← Option.some.inj h]
    split <;> exact Or.inl rfl
  · rw [← Option.some.inj h]
    split <;> exact Or.inl rfl

theorem Counted.step {s s' : Card} {a : Action} (hc : Counted s) (h : step s a = some s') :
    Counted s' := by
  cases a with
  | request i => exact onHandle_counted h (fun _ _ => request_moved) hc
  | finish i => exact onHandle_counted h (fun _ _ => finish_moved) hc
  | detachTest i => exact onHandle_counted h (fun _ _ => detachTest_moved) hc
  | detachRemove i => exact onHandle_counted h (fun _ _ => detachRemove_moved) hc
  | attach =>
      change (if s.present then _ else none) = some s' at h
      split at h
      · obtain rfl := Option.some.inj h
        intro y hy
        rcases List.mem_append.mp hy with hy | hy
        · exact hc y hy
        · rw [List.mem_singleton.mp hy]
          rfl
      · exact (nomatch h)
  | event =>
      obtain rfl := Option.some.inj h
      exact hc
  | cd ins ok =>
      intro y hy
      rcases cdStep_handles h with heq | ⟨i, heq⟩
      · rw [heq] at hy
        exact hc y hy
      · rw [heq] at hy
        rcases mem_modify hy with hy | ⟨x, hx, rfl⟩
        · exact hc y hy
        · exact hc x hx

/-! ### Every step -/

/-- What holds in a run in which `sdio_cd` finds at most one handle. -/
structure Inv (s : Card) : Prop where
  counted : Counted s
  unused : ∀ h ∈ s.handles, h.Unused
  own : ∀ h ∈ s.handles, h.path = s.path ∧ h.generation = s.generation
  absent : s.removed = true → s.present = false
  gone : ∀ ins i, s.cd = .lookup ins ∨ s.cd = .waiting ins i → s.present = false
  waiting : ∀ ins i, s.cd = .waiting ins i → ∀ j h, s.handles[j]? = some h →
    h.freed = true ∨ j = i ∧ h.rmv_pending = true
  quiet : s.removed = true → ∀ h ∈ s.handles, h.inProgress = 0 ∧
    (h.rmv_pending = true ∨ h.freed = true)

theorem Inv.empty (path generation : ℕ) : Inv (empty path generation) where
  counted := fun _ hh => absurd hh List.not_mem_nil
  unused := fun _ hh => absurd hh List.not_mem_nil
  own := fun _ hh => absurd hh List.not_mem_nil
  absent := fun _ => rfl
  gone := fun _ _ _ => rfl
  waiting := fun _ _ h => (nomatch h)
  quiet := fun h => (nomatch h)

theorem Inv.onHandle {s s' : Card} (hi : Inv s) {i : ℕ} {f : Handle → Option Handle}
    (h : onHandle s i f = some s') (hf : ∀ x x', f x = some x' → Moved x x')
    (hun : ∀ x x', s.handles[i]? = some x → f x = some x' → x.usage = x.inProgress → x.Unused →
    x'.Unused) : Inv s' := by
  have hcounted := onHandle_counted h hf hi.counted
  obtain ⟨x, x', hx, hfx, hmoved, rfl⟩ := onHandle_moved h hf
  have hmem := List.mem_of_getElem? hx
  have hstays : x.rmv_pending = true ∨ x.freed = true → x'.rmv_pending = true ∨ x'.freed = true :=
    fun hor => hor.imp hmoved.pending hmoved.freed
  refine ⟨hcounted, fun y hy => ?_, fun y hy => ?_, hi.absent, hi.gone, fun ins k hcd j y hy =>
    ?_, fun hrem y hy => ?_⟩
  · rcases mem_set hy with rfl | hy
    · exact hun x y hx hfx (hi.counted x hmem) (hi.unused x hmem)
    · exact hi.unused y hy
  · rcases mem_set hy with rfl | hy
    · exact ⟨hmoved.path.trans (hi.own x hmem).1, hmoved.generation.trans (hi.own x hmem).2⟩
    · exact hi.own y hy
  · rw [List.getElem?_set] at hy
    split at hy
    · rename_i hij
      subst hij
      split at hy
      · obtain rfl := Option.some.inj hy
        rcases hi.waiting ins k hcd i x hx with hfreed | ⟨hik, hpend⟩
        · exact Or.inl (hmoved.freed hfreed)
        · exact Or.inr ⟨hik, hmoved.pending hpend⟩
      · exact (nomatch hy)
    · exact hi.waiting ins k hcd j y hy
  · rcases mem_set hy with rfl | hy
    · obtain ⟨hzero, hor⟩ := hi.quiet hrem x hmem
      exact ⟨hmoved.quiet hzero hor, hstays hor⟩
    · exact hi.quiet hrem y hy

/-- A handle that `sdio_cd` finds is on the list. -/
theorem find_some {s : Card} {i : ℕ} (h : s.find = some i) :
    ∃ x, s.handles[i]? = some x ∧ s.Listed x = true := by
  obtain ⟨hlt, hlisted, -⟩ := List.findIdx?_eq_some_iff_getElem.mp h
  exact ⟨_, List.getElem?_eq_getElem hlt, hlisted⟩

/-- Two handles are not found where there is one. -/
theorem countP_two {p : Handle → Bool} (l : List Handle) :
    ∀ {i j : ℕ} {x y : Handle}, i < j → l[i]? = some x → l[j]? = some y →
    p x = true → p y = true → 2 ≤ l.countP p := by
  induction l with
  | nil => exact fun _ hx => (nomatch hx)
  | cons a l ih =>
      intro i j x y hij hx hy hpx hpy
      obtain ⟨j, rfl⟩ := Nat.exists_eq_add_one_of_ne_zero (Nat.ne_zero_of_lt hij)
      rw [List.getElem?_cons_succ] at hy
      cases i with
      | zero =>
          obtain rfl := Option.some.inj hx
          have hpos : 0 < l.countP p := List.countP_pos_iff.mpr ⟨y, List.mem_of_getElem? hy, hpy⟩
          rw [List.countP_cons_of_pos hpx]
          omega
      | succ i =>
          rw [List.getElem?_cons_succ] at hx
          have htwo := ih (Nat.lt_of_succ_lt_succ hij) hx hy hpx hpy
          have hle : l.countP p ≤ (a :: l).countP p := (List.sublist_cons_self a l).countP_le
          omega

/-- The handle is marked; the others were detached. -/
theorem Inv.lookup {s : Card} (hi : Inv s) {ins : Bool} {i : ℕ} (hcd : s.cd = .lookup ins)
    (hfind : s.find = some i) (halone : s.handles.countP s.Listed ≤ 1) :
    Inv { s with handles := s.handles.modify i mark, cd := .waiting ins i } := by
  obtain ⟨x, hx, hlisted⟩ := find_some hfind
  have hpresent := hi.gone ins i (Or.inl hcd)
  refine ⟨fun y hy => ?_, fun y hy => ?_, fun y hy => ?_, hi.absent, fun _ _ _ =>
    hpresent, fun ins' k hcd' j y hy => ?_, fun hrem y hy => ?_⟩
  · rcases mem_modify hy with hy | ⟨z, hz, rfl⟩
    · exact hi.counted y hy
    · exact hi.counted z hz
  · rcases mem_modify hy with hy | ⟨z, hz, rfl⟩
    · exact hi.unused y hy
    · exact hi.unused z hz
  · rcases mem_modify hy with hy | ⟨z, hz, rfl⟩
    · exact hi.own y hy
    · exact hi.own z hz
  · obtain ⟨-, rfl⟩ := Cd.waiting.inj hcd'
    rw [List.getElem?_modify] at hy
    obtain ⟨z, hz, hzy⟩ := Option.map_eq_some_iff.mp hy
    by_cases hij : i = j
    · rw [if_pos hij] at hzy
      exact Or.inr ⟨hij.symm, by rw [← hzy]; rfl⟩
    · rw [if_neg hij] at hzy
      refine Or.inl ?_
      rw [← show z = y from hzy]
      by_contra hfreed
      obtain ⟨hpath, hgen⟩ := hi.own z (List.mem_of_getElem? hz)
      have hzl : s.Listed z = true := by
        simp only [Card.Listed, hpath, hgen, Bool.eq_false_iff.mpr hfreed, decide_true,
          Bool.not_false, Bool.and_self]
      rcases Nat.lt_or_gt_of_ne hij with hlt | hgt
      · exact absurd (countP_two s.handles hlt hx hz hlisted hzl) (by omega)
      · exact absurd (countP_two s.handles hgt hz hx hzl hlisted) (by omega)
  · rcases mem_modify hy with hy | ⟨z, hz, rfl⟩
    · exact hi.quiet hrem y hy
    · exact ⟨(hi.quiet hrem z hz).1, Or.inl rfl⟩

/-- The removal callback is invoked: no request is in progress. -/
theorem Inv.removal {s : Card} (hi : Inv s) {ins : Bool} {i : ℕ} {x : Handle}
    (hcd : s.cd = .waiting ins i)
    (hx : s.handles[i]? = some x) (hzero : x.usage = 0) :
      Inv { s with removed := true, cd := .insert ins } := by
  refine ⟨hi.counted, hi.unused, hi.own, fun _ => hi.gone ins i (Or.inr hcd), fun _ _ h =>
    ?_, fun _ _ h => (nomatch h), fun _ y hy => ?_⟩
  · rcases h with h | h <;> exact (nomatch h)
  · obtain ⟨j, hj⟩ := List.mem_iff_getElem?.mp hy
    rcases hi.waiting ins i hcd j y hj with hfreed | ⟨rfl, hpend⟩
    · exact ⟨hi.unused y hy (Or.inr hfreed), Or.inr hfreed⟩
    · have hcount := hi.counted y hy
      rw [Option.some.inj (hx.symm.trans hj)] at hzero
      exact ⟨by omega, Or.inl hpend⟩

/-- `sdio_cd` is in the middle of a removal. -/
def Cd.removing : Cd → Bool
  | .lookup _ => true
  | .waiting _ _ => true
  | _ => false

/-- A step of `sdio_cd` that leaves the handles alone, to where no removal is going on. -/
theorem Inv.elsewhere {s : Card} (hi : Inv s) {c : Cd} (hc : c.removing = false)
    (media_change invalid : Bool) :
      Inv { s with media_change := media_change, invalid := invalid, cd := c } where
  counted := hi.counted
  unused := hi.unused
  own := hi.own
  absent := hi.absent
  gone := by
    rintro ins i (rfl | rfl) <;> exact (nomatch hc)
  waiting := by
    rintro ins i rfl
    exact (nomatch hc)
  quiet := hi.quiet

theorem Inv.cdStep {s s' : Card} (hi : Inv s) {ins ok : Bool} (h : cdStep ins ok s = some s')
    (halone : Alone s (.cd ins ok)) : Inv s' := by
  unfold Removal.cdStep at h
  split at h
  case h_1 =>
    rw [← Option.some.inj h]
    refine hi.elsewhere ?_ _ _
    split <;> rfl
  case h_2 =>
    rw [← Option.some.inj h]
    exact hi.elsewhere rfl _ _
  case h_3 =>
    rw [← Option.some.inj h]
    split
    · exact ⟨hi.counted, hi.unused, hi.own, fun _ => rfl, fun _ _ _ => rfl, fun _ _ h =>
        (nomatch h), hi.quiet⟩
    · exact hi.elsewhere rfl _ _
  case h_4 ins' hcd =>
    split at h
    · rw [← Option.some.inj h]
      exact hi.elsewhere rfl _ _
    · rename_i i hfind
      rw [← Option.some.inj h]
      exact hi.lookup hcd hfind (halone (by rw [hcd]; rfl))
  case h_5 ins' i hcd =>
    split at h
    · exact (nomatch h)
    · rename_i x hx
      split at h
      · exact (nomatch h)
      · rename_i hzero
        rw [← Option.some.inj h]
        exact hi.removal hcd hx (not_not.mp hzero)
  case h_6 =>
    rw [← Option.some.inj h]
    split
    · exact hi.elsewhere rfl _ _
    · exact hi.elsewhere rfl _ _
  case h_7 =>
    rw [← Option.some.inj h]
    split
    · refine ⟨hi.counted, hi.unused, hi.own, fun h => (nomatch h), fun _ _ h => ?_, fun _ _ h =>
        (nomatch h), fun h => (nomatch h)⟩
      rcases h with h | h <;> exact (nomatch h)
    · exact hi.elsewhere rfl _ _

/-- A new handle: the card is present. -/
theorem Inv.attach {s s' : Card} (hi : Inv s) (h : sdio_attach s = some s') : Inv s' := by
  have hcounted : Counted s' := hi.counted.step (a := .attach) h
  unfold sdio_attach at h
  split at h
  · rename_i hpresent
    have hnot : s.present ≠ false := by
      rw [hpresent]
      decide
    obtain rfl := Option.some.inj h
    refine ⟨hcounted, fun y hy => ?_, fun y hy => ?_, hi.absent, hi.gone,
      fun ins i hcd => absurd (hi.gone ins i (Or.inr hcd)) hnot, fun hrem =>
        absurd (hi.absent hrem) hnot⟩
    · rcases List.mem_append.mp hy with hy | hy
      · exact hi.unused y hy
      · rw [List.mem_singleton.mp hy]
        exact fun _ => rfl
    · rcases List.mem_append.mp hy with hy | hy
      · exact hi.own y hy
      · rw [List.mem_singleton.mp hy]
        exact ⟨rfl, rfl⟩
  · exact (nomatch h)

/-- **Every step keeps the invariant.** -/
theorem Inv.step {s s' : Card} {a : Action} (hi : Inv s) (h : step s a = some s')
    (halone : Alone s a) : Inv s' := by
  cases a with
  | request i =>
      refine hi.onHandle h (fun _ _ => request_moved) fun x x' hx hr _ hun => ?_
      obtain ⟨hfreed, rfl | ⟨hok, rfl⟩⟩ := request_cases hr
      · exact hun
      · rintro (hdet | hfree)
        · exact absurd (sync_passes.mpr hok) (halone x hx hdet)
        · exact absurd (hfreed.symm.trans hfree) (by decide)
  | finish i =>
      refine hi.onHandle h (fun _ _ => finish_moved) fun x x' hx hr _ hun => ?_
      obtain ⟨hne, rfl⟩ := finish_cases hr
      exact fun hor => absurd (hun hor) hne
  | detachTest i =>
      refine hi.onHandle h (fun _ _ => detachTest_moved) fun x x' hx hr hcount hun => ?_
      rcases detachTest_cases hr with rfl | ⟨hzero, rfl⟩
      · exact hun
      · intro _
        dsimp only
        omega
  | detachRemove i =>
      refine hi.onHandle h (fun _ _ => detachRemove_moved) fun x x' hx hr _ hun => ?_
      obtain ⟨hdet, rfl⟩ := detachRemove_cases hr
      exact fun _ => hun (Or.inl hdet)
  | attach => exact hi.attach h
  | event =>
      obtain rfl := Option.some.inj h
      exact ⟨hi.counted, hi.unused, hi.own, hi.absent, hi.gone, hi.waiting, hi.quiet⟩
  | cd ins ok => exact hi.cdStep h halone

theorem Inv.calm {s : Card} (hi : Inv s) : Quiet s := by
  intro hrem h hh
  obtain ⟨hzero, hor⟩ := hi.quiet hrem h hh
  refine ⟨hzero, fun hfreed hpass => ?_⟩
  rcases hor with hpend | hfree
  · exact sync_passes.mp hpass (Or.inl hpend)
  · exact absurd (hfreed.symm.trans hfree) (by decide)

/-! ### Every run -/

theorem counted_run (actions : List Action) :
    ∀ {s : Card}, Counted s → Counted (run s actions) := by
  induction actions with
  | nil => exact fun hc => hc
  | cons a actions ih =>
      intro s hc
      refine ih ?_
      dsimp only
      cases h : Removal.step s a with
      | none => exact hc
      | some s' => exact hc.step h

theorem inv_run (actions : List Action) :
    ∀ {s : Card}, Inv s → Always Alone s actions → Inv (run s actions) := by
  induction actions with
  | nil => exact fun hi _ => hi
  | cons a actions ih =>
      rintro s hi ⟨ha, hrest⟩
      refine ih ?_ hrest
      dsimp only
      cases h : Removal.step s a with
      | none => exact hi
      | some s' => exact hi.step h ha

/-- **The usage counts are never negative; and while the card is gone it is quiet, if `sdio_cd`
found at most one handle each time, and no request passed on a handle that was being detached.** -/
theorem removal_run (path generation : ℕ) (actions : List Action) :
    (∀ h ∈ (run (empty path generation) actions).handles, 0 ≤ h.usage) ∧
    (Always Alone (empty path generation) actions →
    Quiet (run (empty path generation) actions)) := by
  constructor
  · intro h hh
    have hcount := counted_run actions (Inv.empty path generation).counted h hh
    omega
  · exact fun halone => (inv_run actions (Inv.empty path generation) halone).calm

/-- A card is inserted, used by one handle, and taken out while the request is in progress. -/
def oneHandle : List Action :=
  [.cd true true, .cd true true, .cd true true, .attach, .request 0, .event, .cd false true,
    .cd false true, .cd false true, .cd false true, .cd false true, .finish 0, .cd false true]

theorem removal_run_one :
    (run (empty 0 0) oneHandle).removed = true ∧ Quiet (run (empty 0 0) oneHandle) :=
  ⟨by decide, (removal_run 0 0 oneHandle).2 (by decide)⟩

/-- A second handle has a request in progress when the card is taken out: `sdio_cd` waits for the
first only. -/
theorem second_handle :
    ¬ Quiet (run (empty 0 0)
        [.cd true true, .cd true true, .cd true true, .attach, .attach, .request 1, .event,
      .cd false true, .cd false true, .cd false true, .cd false true, .cd false true]) := by
  decide

end Sdmmc.Removal
