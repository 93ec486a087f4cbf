/-
Sources of rows, and the protocol that every operator follows.

An operator is closed until it is opened.  While it is open, `hasNext` looks ahead without taking, `next`
takes a row, and `rewind` starts over.  `close` is allowed at any time, and opening an open operator closes
it first.

* `Source` — what one operator has to say: how its own state is opened, closed, rewound, and how the next
  row is fetched;
* `Running` — the state of an operator in use: open or not, the row fetched ahead, and its own state;
* `Source.open`, `Source.hasNext`, `Source.next`, `Source.rewind`, `Source.close` — the protocol, the same
  for all sources;
* `Source.collect` — all rows that are left.

Design notes.  An operator over a child is a function from sources to sources, over any state that the
child may have.  So a law about, say, filters is stated once, for all children.
-/
import RelStore.Action
import RelStore.Operator.Error

namespace RelStore

/-- A step of an operator. -/
abbrev Step (σ α : Type) := Action ExecError σ α

/-- What an operator does with its own state. -/
structure Source (β : Type) where
  /-- Opens children and resets the state. -/
  openBody : Step β Unit
  /-- Closes children and resets the state. -/
  closeBody : β → β
  /-- Does again all that opening computes. -/
  rewindBody : Step β Unit
  /-- The next row, or none at the end. -/
  fetch : Step β (Option Row)

/-- An operator in use: whether it is open, the row fetched ahead, and its own state. -/
structure Running (β : Type) where
  opened : Bool := false
  ahead : Option Row := none
  body : β
deriving DecidableEq, Repr, Inhabited

namespace Running

/-- A closed operator. -/
def closed {β : Type} (body : β) : Running β :=
  { body := body }

/-- A step on the operator's own state. -/
def inBody {β α : Type} (a : Step β α) : Step (Running β) α :=
  Action.on Running.body (fun r b => { r with body := b }) a

end Running

namespace Source

variable {β : Type}

/-- Closes the operator. -/
def close (s : Source β) (r : Running β) : Running β :=
  ⟨false, none, s.closeBody r.body⟩

/-- Opens the operator; an open one is closed first. -/
def «open» (s : Source β) : Step (Running β) Unit := do
  if (← Action.state).opened then
    Action.update s.close
  Running.inBody s.openBody
  Action.update fun r => { r with opened := true, ahead := none }

/-- Whether there is one more row. -/
def hasNext (s : Source β) : Step (Running β) Bool := do
  let r ← Action.state
  if r.opened then
    if r.ahead = none then
      let row ← Running.inBody s.fetch
      Action.update fun r => { r with ahead := row }
    pure (← Action.state).ahead.isSome
  else throw .notOpen

/-- The next row. -/
def next (s : Source β) : Step (Running β) Row := do
  if ← s.hasNext then
    match (← Action.state).ahead with
    | some row =>
      Action.update fun r => { r with ahead := none }
      pure row
    | none => throw .noMoreRows
  else throw .noMoreRows

/-- Starts over. -/
def rewind (s : Source β) : Step (Running β) Unit := do
  if (← Action.state).opened then
    Running.inBody s.rewindBody
    Action.update fun r => { r with ahead := none }
  else throw .notOpen

/-- All rows that are left, if there are fewer than `fuel`. -/
def collect (s : Source β) : (fuel : Nat) → Step (Running β) (List Row)
  | 0 => throw (.storage .outOfFuel)
  | fuel + 1 => do
    if ← s.hasNext then
      let row ← s.next
      let rows ← s.collect fuel
      pure (row :: rows)
    else pure []

/-! What the steps of the protocol answer and leave behind. -/

open Fallible (follow)

theorem outcome_inBody {α : Type} (a : Step β α) (r : Running β) (db : Database) :
    (Running.inBody a).outcome (r, db)
      = ((a.outcome (r.body, db)).1, { r with body := (a.outcome (r.body, db)).2.1 },
          (a.outcome (r.body, db)).2.2) := rfl

/-- Looking ahead at a row that was fetched before does nothing; otherwise the row is fetched. -/
theorem outcome_hasNext (s : Source β) (r : Running β) (db : Database) :
    s.hasNext.outcome (r, db) =
      if r.opened then
        match r.ahead with
        | some _ => (.ok true, r, db)
        | none =>
          follow ((Running.inBody s.fetch).outcome (r, db)) fun row t =>
            (.ok row.isSome, { t.1 with ahead := row }, t.2)
      else (.error .notOpen, r, db) := by
  unfold hasNext
  cases hopen : r.opened <;> cases hahead : r.ahead <;> simp [hopen, hahead]

/-- A row is taken by looking ahead and forgetting the row. -/
theorem outcome_next (s : Source β) (r : Running β) (db : Database) :
    s.next.outcome (r, db) =
      follow (s.hasNext.outcome (r, db)) fun more t =>
        match more, t.1.ahead with
        | true, some row => (.ok row, { t.1 with ahead := none }, t.2)
        | _, _ => (.error .noMoreRows, t) := by
  unfold next
  rw [Fallible.outcome_bind]
  congr 1
  funext more t
  cases more with
  | false => rfl
  | true => cases hahead : t.1.ahead <;> simp [hahead]

/-- An open operator is opened like a closed one. -/
theorem outcome_open (s : Source β) (r : Running β) (db : Database) :
    s.open.outcome (r, db) =
      follow ((Running.inBody s.openBody).outcome (if r.opened then s.close r else r, db))
        fun _ t => (.ok (), { t.1 with opened := true, ahead := none }, t.2) := by
  unfold «open»
  cases hopen : r.opened <;> simp [hopen]

theorem outcome_rewind (s : Source β) (r : Running β) (db : Database) :
    s.rewind.outcome (r, db) =
      if r.opened then
        follow ((Running.inBody s.rewindBody).outcome (r, db))
          fun _ t => (.ok (), { t.1 with ahead := none }, t.2)
      else (.error .notOpen, r, db) := by
  unfold rewind
  cases hopen : r.opened <;> simp [hopen]

end Source

end RelStore
