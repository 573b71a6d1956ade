import RpiBsp.Support.Text

/-!
# Support — Lists of ranges

Items with commas between them, each of them one thing or two with `-` between them.  What a thing
is and where it ends is a relation `reads s a rest`: an `a` stands in front of `s`, and `rest`
follows it.

* `Item`, `Ranges` — what stands in front of a text, and what a whole text says;
* `Ranges.map`, `Ranges.lift`, `Ranges.restrict` — from one way of reading to another;
* `Definite`, `Ranges.unique` — where things are read in one way only, a text is one list at most.
-/

namespace Support

variable {α β : Type} {reads : Text → α → Text → Prop} {reads' : Text → β → Text → Prop}
    {s rest : Text}

/-- One thing, or a range from the first thing to the second. -/
inductive Item (reads : Text → α → Text → Prop) : Text → α × α → Text → Prop where
  | one {s a rest} (h : reads s a rest) : Item reads s (a, a) rest
  | range {s a mid b rest} (ha : reads s a ('-' :: mid)) (hb : reads mid b rest) :
      Item reads s (a, b) rest

/-- A text that is a list of items. -/
inductive Ranges (reads : Text → α → Text → Prop) : Text → List (α × α) → Prop where
  | last {s item} (h : Item reads s item []) : Ranges reads s [item]
  | more {s item rest items} (h : Item reads s item (',' :: rest))
      (hrest : Ranges reads rest items) :
      Ranges reads s (item :: items)

theorem Ranges.ne_nil {items : List (α × α)} (h : Ranges reads s items) : items ≠ [] := by
  cases h with
  | last _ => exact List.cons_ne_nil _ _
  | more _ _ => exact List.cons_ne_nil _ _

/-- What follows an item is no longer than the text. -/
theorem Item.length_le (hreads : ∀ s a rest, reads s a rest → rest.length ≤ s.length) {item : α × α}
    (h : Item reads s item rest) : rest.length ≤ s.length := by
  cases h with
  | one h => exact hreads _ _ _ h
  | range ha hb =>
      have hmid := hreads _ _ _ ha
      rw [List.length_cons] at hmid
      exact (hreads _ _ _ hb).trans (by omega)

theorem Item.map {f : α → β} (hf : ∀ s a rest, reads s a rest → reads' s (f a) rest) {item : α × α}
    (h : Item reads s item rest) : Item reads' s (item.map f f) rest := by
  cases h with
  | one h => exact .one (hf _ _ _ h)
  | range ha hb => exact .range (hf _ _ _ ha) (hf _ _ _ hb)

/-- Whatever is read is read in the other way too, as what `f` makes of it. -/
theorem Ranges.map {f : α → β} (hf : ∀ s a rest, reads s a rest → reads' s (f a) rest)
    {items : List (α × α)}
    (h : Ranges reads s items) : Ranges reads' s (items.map (Prod.map f f)) := by
  induction h with
  | last h => exact .last (h.map hf)
  | more h _ ih => exact .more (h.map hf) ih

theorem Item.lift {f : α → β} (hf : ∀ s b rest, reads' s b rest → ∃ a, f a = b ∧ reads s a rest)
    {item : β × β}
    (h : Item reads' s item rest) : ∃ item', item'.map f f = item ∧ Item reads s item' rest := by
  cases h with
  | one h =>
      obtain ⟨a, rfl, ha⟩ := hf _ _ _ h
      exact ⟨(a, a), rfl, .one ha⟩
  | range hfirst hsecond =>
      obtain ⟨a, rfl, ha⟩ := hf _ _ _ hfirst
      obtain ⟨b, rfl, hb⟩ := hf _ _ _ hsecond
      exact ⟨(a, b), rfl, .range ha hb⟩

/-- Where everything that is read comes from the first way of reading, a list does. -/
theorem Ranges.lift {f : α → β} (hf : ∀ s b rest, reads' s b rest → ∃ a, f a = b ∧ reads s a rest)
    {items : List (β × β)}
    (h : Ranges reads' s items) :
      ∃ items', items'.map (Prod.map f f) = items ∧ Ranges reads s items' := by
  induction h with
  | last h =>
      obtain ⟨item, rfl, hitem⟩ := h.lift hf
      exact ⟨[item], rfl, .last hitem⟩
  | more h _ ih =>
      obtain ⟨item, rfl, hitem⟩ := h.lift hf
      obtain ⟨items, rfl, hitems⟩ := ih
      exact ⟨item :: items, rfl, .more hitem hitems⟩

theorem Item.forall_mem {p : α → Prop} (hp : ∀ s a rest, reads s a rest → p a) {item : α × α}
    (h : Item reads s item rest) : p item.1 ∧ p item.2 := by
  cases h with
  | one h => exact ⟨hp _ _ _ h, hp _ _ _ h⟩
  | range ha hb => exact ⟨hp _ _ _ ha, hp _ _ _ hb⟩

theorem Ranges.forall_mem {p : α → Prop} (hp : ∀ s a rest, reads s a rest → p a)
    {items : List (α × α)} (h : Ranges reads s items) : ∀ item ∈ items, p item.1 ∧ p item.2 := by
  induction h with
  | last h =>
      intro item hitem
      rw [List.mem_singleton.mp hitem]
      exact h.forall_mem hp
  | more h _ ih => exact List.forall_mem_cons.mpr ⟨h.forall_mem hp, ih⟩

theorem Item.restrict {p : α → Prop} {item : α × α} (h : Item reads s item rest)
    (hp : p item.1 ∧ p item.2) :
    Item (fun s a rest => reads s a rest ∧ p a) s item rest := by
  cases h with
  | one h => exact .one ⟨h, hp.1⟩
  | range ha hb => exact .range ⟨ha, hp.1⟩ ⟨hb, hp.2⟩

theorem Ranges.restrict {p : α → Prop} {items : List (α × α)} (h : Ranges reads s items)
    (hp : ∀ item ∈ items, p item.1 ∧ p item.2) :
      Ranges (fun s a rest => reads s a rest ∧ p a) s items := by
  induction h with
  | last h => exact .last (h.restrict (hp _ List.mem_cons_self))
  | more h _ ih =>
      exact .more (h.restrict (hp _ List.mem_cons_self))
        (ih fun item hi => hp item (List.mem_cons_of_mem _ hi))

/-- One thing at most stands in front of a text, and ends in one place. -/
def Definite (reads : Text → α → Text → Prop) : Prop :=
  ∀ ⦃s a a' rest rest'⦄, reads s a rest → reads s a' rest' → a = a' ∧ rest = rest'

/-- Items that no `-` follows are read in one way. -/
theorem Item.unique (hreads : Definite reads) {item item' : α × α} {rest' : Text}
    (h : Item reads s item rest)
    (h' : Item reads s item' rest') (hrest : '-' ∉ rest.head?) (hrest' : '-' ∉ rest'.head?) :
    item = item' ∧ rest = rest' := by
  cases h with
  | one h =>
      cases h' with
      | one h' =>
          obtain ⟨rfl, rfl⟩ := hreads h h'
          exact ⟨rfl, rfl⟩
      | range ha hb =>
          obtain ⟨-, rfl⟩ := hreads h ha
          exact absurd rfl hrest
  | range ha hb =>
      cases h' with
      | one h' =>
          obtain ⟨-, rfl⟩ := hreads h' ha
          exact absurd rfl hrest'
      | range ha' hb' =>
          obtain ⟨rfl, hmid⟩ := hreads ha ha'
          obtain rfl := (List.cons.inj hmid).2
          obtain ⟨rfl, rfl⟩ := hreads hb hb'
          exact ⟨rfl, rfl⟩

theorem Ranges.unique (hreads : Definite reads) {items items' : List (α × α)}
    (h : Ranges reads s items) (h' : Ranges reads s items') : items = items' := by
  have hnil : '-' ∉ ([] : Text).head? := by simp
  have hcomma : ∀ rest : Text, '-' ∉ (',' :: rest).head? := by simp
  induction h generalizing items' with
  | last h =>
      cases h' with
      | last h' => rw [(h.unique hreads h' hnil hnil).1]
      | more h' _ => exact absurd (h.unique hreads h' hnil (hcomma _)).2 (by simp)
  | more h _ ih =>
      cases h' with
      | last h' => exact absurd (h.unique hreads h' (hcomma _) hnil).2 (by simp)
      | more h' hrest' =>
          obtain ⟨rfl, htail⟩ := h.unique hreads h' (hcomma _) (hcomma _)
          obtain rfl := (List.cons.inj htail).2
          rw [ih hrest']

end Support
