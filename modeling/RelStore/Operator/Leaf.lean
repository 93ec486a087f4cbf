/-
Operators without children.

* `Source.scan` — the rows of a table, under the scan's own schema;
* `Source.values` — a fixed list of rows, again and again;
* `Source.groups` — the results of a running aggregate, as it stands when the operator is opened.
-/
import RelStore.Operator.Source
import RelStore.Storage.Cursor

namespace RelStore

/-- What is left to hand out of an aggregate's results: keys and their statistics. -/
abbrev PendingGroups := List (Option Field × Stat)

namespace Source

/-- Reads every row of a heap file by page and slot, and puts it under `schema`. -/
def scan (fuel : Nat) (f : HeapFile) (schema : Schema) : Source HeapCursor where
  openBody := (HeapCursor.start f).wrapError .storage
  closeBody := fun _ => HeapCursor.closed
  rewindBody := (HeapCursor.rewind f).wrapError .storage
  fetch := do
    if ← (HeapCursor.hasNext f fuel).wrapError .storage then
      let row ← (HeapCursor.next f fuel).wrapError .storage
      pure (some (row.withSchema schema))
    else pure none

/-- Hands out a fixed list of rows. -/
def values (rows : List Row) : Source (List Row) where
  openBody := Action.update fun _ => rows
  closeBody := fun _ => []
  rewindBody := Action.update fun _ => rows
  fetch := do
    match ← Action.state with
    | [] => pure none
    | row :: rest =>
      Action.update fun _ => rest
      pure (some row)

/-- The groups to hand out: with grouping those that have a key, without it the one that has none. -/
def snapshot (grouped : Bool) (groups : Groups) : PendingGroups :=
  if grouped then groups.entries.filter (fun e => e.1.isSome)
  else [(none, (groups.get? none).getD Stat.empty)]

/-- The next result row: the key, if there is one, and the value. A group without a value is passed
over. -/
def fetchGroup (op : AggregateOp) (schema : Schema) : Step PendingGroups (Option Row) := do
  match ← Action.state with
  | [] => pure none
  | (key, stat) :: rest =>
    Action.update fun _ => rest
    let value ← Fallible.ofExcept ((stat.emit op).mapError .aggregate)
    pure (some ⟨schema, key.toList ++ [.int value], none⟩)

/-- Reads the groups of a running aggregate when it is opened or rewound. -/
def groups (number : Nat) (grouped : Bool) (op : AggregateOp) (schema : Schema) :
    Source PendingGroups :=
  let read : Step PendingGroups Unit := do
    let db ← Action.database
    Action.update fun _ => snapshot grouped ((db.running.get? number).getD {})
  { openBody := read
    closeBody := fun _ => []
    rewindBody := read
    fetch := fetchGroup op schema }

end Source

end RelStore
