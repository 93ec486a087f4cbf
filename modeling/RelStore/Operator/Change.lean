/-
Operators that change tables.

* `Source.insert` — stores every row of the child in a table;
* `Source.delete` — removes every row of the child from the table that its record id points into.

Both answer a single row, the number of rows that they changed.  When storage refuses a row the pass ends
with an error that tells how many were changed; nothing more happens until the operator is opened or rewound.
A schema without a text is no refusal of storage: the error is passed on as it is and the pass stays open, so
the next fetch goes on with the next row.

Design notes.  The two differ only in what they do with one row, so both are instances of `Source.change`.
-/
import RelStore.Operator.Source

namespace RelStore

/-- The state of a change: the rows changed by this pass, whether the pass is over, and the child. -/
structure ChangeState (β : Type) where
  count : Nat := 0
  finished : Bool := false
  child : Running β
deriving DecidableEq, Repr, Inhabited

/-- The schema of a count. -/
def countSchema : Schema := ⟨[.int], none⟩

/-- The row that answers a count. -/
def countRow (kind : Mutation) (count : Nat) : Except ExecError Row :=
  if (count : Int) ≤ Int32.maxValue.toInt then
    .ok ⟨countSchema, [.int (Int32.ofInt count)], none⟩
  else .error (.countOverflow kind count)

/-- What the pass makes of an error: whether it is over, and the error that it passes on. -/
def refusal (kind : Mutation) (count : Nat) : StorageError → Bool × ExecError
  | .schema cause => (false, .schema cause)
  | cause => (true, .mutation kind count cause)

namespace Source

variable {β : Type}

/-- A step of the child. -/
def onChild {α : Type} (a : Step (Running β) α) : Step (ChangeState β) α :=
  Action.on ChangeState.child (fun s c => { s with child := c }) a

/-- Changes the rows of the child one by one, at most `fuel` of them, and answers their number. -/
def changeRows (kind : Mutation) (change : Row → DbM StorageError Unit) (child : Source β) :
    (fuel : Nat) → Step (ChangeState β) (Option Row)
  | 0 => throw (.storage .outOfFuel)
  | fuel + 1 => do
    if ← onChild child.hasNext then
      let row ← onChild child.next
      let count := (← Action.state).count
      match ← Action.attempt (change row) with
      | .ok () =>
        Action.update fun s => { s with count := s.count + 1 }
        changeRows kind change child fuel
      | .error cause =>
        let (ended, e) := refusal kind count cause
        Action.update fun s => { s with finished := ended }
        throw e
    else
      Action.update fun s => { s with finished := true }
      let row ← Fallible.ofExcept (countRow kind (← Action.state).count)
      pure (some row)

/-- Starts a pass over the child from the beginning. -/
def startChange (reset : Step (Running β) Unit) : Step (ChangeState β) Unit := do
  onChild reset
  Action.update fun s => { s with count := 0, finished := false }

/-- Does `change` with every row of the child, then hands out how many there were. -/
def change (fuel : Nat) (kind : Mutation) (change : Row → DbM StorageError Unit) (child : Source β) :
    Source (ChangeState β) where
  openBody := startChange child.open
  closeBody := fun s => { s with child := child.close s.child }
  rewindBody := startChange child.rewind
  fetch := do
    if (← Action.state).finished then pure none
    else changeRows kind change child fuel

/-- Stores every row of the child in a table, under the table's schema. -/
def insert (fuel : Nat) (txn : TxnId) (table : TableId) (schema : Schema) (child : Source β) :
    Source (ChangeState β) :=
  change fuel .insert
    (fun row => Database.insertRow txn table { row with schema := schema, record := none }) child

/-- Removes every row of the child from the table that its record id points into. -/
def delete (fuel : Nat) (txn : TxnId) (child : Source β) : Source (ChangeState β) :=
  change fuel .delete (Database.deleteRow txn) child

end Source

end RelStore
