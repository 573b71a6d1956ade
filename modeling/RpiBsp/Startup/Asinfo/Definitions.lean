import RpiBsp.Support.Word

/-!
# Startup — Asinfo — definitions

The address-space section of the system page, `lsp.asinfo`, and the library functions that search
and extend it (`as_find_containing.c`, `as_add64.c`, `as_add_containing.c`).

An offset into the section is the index of its entry times `sizeof(struct asinfo_entry)`; here it
is the index, and `AS_NULL_OFF` is `none`.  An entry's `name` is the string its 16-bit name offset
stands for.  `room` is how many more entries the temporary system page has memory for: beyond it
`grow_syspage_section` crashes.
-/

namespace Startup

open Support

/-- How a startup function stops the board.  All but the last two are calls of `crash`;
`cleared_elsewhere` is where a secure system clears other memory than it gives out, and is not
followed; `outside` stands for a cursor that leaves its table, or a store through a null address,
which no correct run makes. -/
inductive Crash where
  | ram_overflow
  | avoid_overflow
  | whole_sysram
  | syspage_overflow
  | pt_alloc
  | bad_alignment
  | bad_vaddr
  | cleared_elsewhere
  | outside
deriving DecidableEq, Repr

/-- `ROUNDPG`. -/
def ROUNDPG (x : ℕ) : ℕ := round 64 x 4096

/-- The attribute bits of an entry that the modelled functions read or write. -/
structure AsAttr where
  ram : Bool := false
  kids : Bool := false
  continued : Bool := false
  overlay_io : Bool := false
deriving DecidableEq, Repr

def AS_ATTR_NONE : AsAttr := {}
def AS_ATTR_RAM : AsAttr := { ram := true }

/-- `struct asinfo_entry`: the bytes `start .. end`, both included. -/
structure AsinfoEntry where
  start : ℕ
  end_ : ℕ
  owner : Option ℕ
  name : String
  attr : AsAttr
deriving DecidableEq, Repr

structure Asinfo where
  entries : List AsinfoEntry
  room : ℕ
deriving DecidableEq, Repr

/-- `match_name`: `as` or an entry it is owned by, directly or not, has the name.  The C loop
follows owners without a bound; `fuel` is one more than the number of entries, and owners point
to earlier entries. -/
def match_name (base : List AsinfoEntry) (name : String) : ℕ → AsinfoEntry → Bool
  | 0, _ => false
  | fuel + 1, as =>
      if as.name = name then true
      else match as.owner with
        | none => false
        | some o => match base[o]? with
          | none => false
          | some own => match_name base name fuel own

/-- The three range tests of `as_find_containing`: an end of the request lies in the entry, or the
request contains it. -/
def AsinfoEntry.meets (as : AsinfoEntry) (start end_ : ℕ) : Bool :=
  (as.start ≤ start && start ≤ as.end_) ||
  (as.start ≤ end_ && end_ ≤ as.end_) ||
  (start ≤ as.start && as.end_ ≤ end_)

/-- `as_find_containing`: the first entry after `off` that has the name and meets the range. -/
def as_find_containing (base : List AsinfoEntry) (off : Option ℕ) (start end_ : ℕ)
    (container : String) : Option ℕ :=
  let first := match off with
    | none => 0
    | some o => o + 1
  ((base.drop first).findIdx? fun as =>
    match_name base container (base.length + 1) as && as.meets start end_).map (first + ·)

/-- `as_add64` up to the overlay: append the entry and mark the owner. -/
def as_append (start end_ : ℕ) (attr : AsAttr) (name : String) (owner : Option ℕ) (t : Asinfo) :
    Except Crash (ℕ × Asinfo) :=
  if t.room = 0 then .error .syspage_overflow
  else
    let entries := t.entries ++ [⟨start, end_, owner, name, { attr with overlay_io := false }⟩]
    let entries := match owner with
      | none => entries
      | some o => entries.modify o fun own => { own with attr := { own.attr with kids := true } }
    .ok (t.entries.length, ⟨entries, t.room - 1⟩)

/-- `as_add64`, which is also `as_add`. -/
def as_add (start end_ : ℕ) (attr : AsAttr) (name : String) (owner : Option ℕ) (t : Asinfo) :
    Except Crash (ℕ × Asinfo) := do
  let (off, t) ← as_append start end_ attr name owner t
  if attr.overlay_io then
    let (_, t) ← as_append start end_ { attr with overlay_io := false } "io" (some off) t
    return (off, t)
  return (off, t)

/-! ### `as_add_containing` -/

/-- `struct as_range`. -/
structure AsRange where
  start : ℕ
  end_ : ℕ
  owner : ℕ
deriving DecidableEq, Repr

/-- The inner loop: give the piece `[piece_start, piece_end]` of `owner` its place in the list,
taking it out of the range it starts in. -/
def splice (piece_start piece_end owner : ℕ) : List AsRange → List AsRange
  | [] => [⟨piece_start, piece_end, owner⟩]
  | curr :: rest =>
      if curr.start ≤ piece_start ∧ piece_start ≤ curr.end_ then
        if curr.start = piece_start ∧ curr.end_ = piece_end then
          { curr with owner := owner } :: rest
        else if curr.start = piece_start then
          ⟨piece_start, piece_end, owner⟩ ::
            { curr with start := addW 64 piece_end 1 } :: rest
        else
          { curr with end_ := subW 64 piece_start 1 } :: ⟨piece_start, piece_end, owner⟩ ::
            (if curr.end_ ≠ piece_end then
              ⟨addW 64 piece_end 1, curr.end_, curr.owner⟩ :: rest
            else rest)
      else curr :: splice piece_start piece_end owner rest

/-- The outer loop, over the entries that contain part of the request.  `owner` only goes up, so
the number of entries bounds it. -/
def collect (base : List AsinfoEntry) (start end_ : ℕ) (container : String) :
    ℕ → Option ℕ → List AsRange → List AsRange
  | 0, _, list => list
  | fuel + 1, owner, list =>
      match as_find_containing base owner start end_ container with
      | none => list
      | some o =>
          match base[o]? with
          | none => list
          | some as =>
              let piece_start := if start < as.start then as.start else start
              let piece_end := if as.end_ < end_ then as.end_ else end_
              collect base start end_ container fuel (some o)
                (splice piece_start piece_end o list)

/-- The loop that adds the pieces: the first and the last offset added. -/
def addPieces (attr : AsAttr) (name : String) :
    List AsRange → Option ℕ → Option ℕ → Asinfo → Except Crash (Option ℕ × Option ℕ × Asinfo)
  | [], start_off, off, t => .ok (start_off, off, t)
  | piece :: rest, start_off, off, t =>
      if piece.start ≤ piece.end_ then do
        let (o, t) ← as_add piece.start piece.end_ attr name (some piece.owner) t
        addPieces attr name rest (start_off.or (some o)) (some o) t
      else addPieces attr name rest start_off off t

/-- The loop that lays an `io` entry over every piece. -/
def overlayPieces (attr : AsAttr) (name : String) : ℕ → ℕ → Asinfo → Except Crash Asinfo
  | 0, _, t => .ok t
  | fuel + 1, off, t =>
      match t.entries[off]? with
      | none => .ok t
      | some as => do
          let (_, t) ← as_add as.start as.end_ { attr with overlay_io := false } name (some off) t
          if as.attr.continued then overlayPieces attr name fuel (off + 1) t else return t

/-- `as_add_containing`. -/
def as_add_containing (start end_ : ℕ) (attr : AsAttr) (name container : String) (t : Asinfo) :
    Except Crash (Option ℕ × Asinfo) := do
  let list := collect t.entries start end_ container (t.entries.length + 1) none []
  let piece_attr := { attr with overlay_io := false, continued := true }
  let (start_off, off, t) ← addPieces piece_attr name list none none t
  match start_off, off with
  | some first, some last =>
      let t := { t with entries := t.entries.modify last fun as =>
        { as with attr := { as.attr with continued := false } } }
      if attr.overlay_io then
        let t ← overlayPieces attr name t.entries.length first t
        return (start_off, t)
      return (start_off, t)
  | _, _ => return (start_off, t)

end Startup
