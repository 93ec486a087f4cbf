/-
Cursors over heap files.

A cursor hands out the rows of a heap file by page and slot.  It copies the rows of one page at a time
through the page cache, when it gets there; pages without rows are passed over.

* `HeapCursor.start`, `HeapCursor.close`, `HeapCursor.rewind` — opening needs at least one page;
* `HeapCursor.hasNext` — loads pages until there is a row, without handing it out;
* `HeapCursor.next` — hands out a row.

Design notes.  The number of pages is read again before each page, since the file may grow under the
cursor.  The search for a page with rows is bounded by `fuel`, the number of pages that it may look at.
-/
import RelStore.Action

namespace RelStore

/-- The state of a cursor: the next page to load, and the rows left of the last one. -/
structure HeapCursor where
  opened : Bool := false
  nextPage : Nat := 0
  pending : List Row := []
deriving DecidableEq, Repr, Inhabited

namespace HeapCursor

/-- A closed cursor. -/
def closed : HeapCursor := {}

/-- Opens a closed cursor at the first page. An open cursor stays as it is. -/
def start (f : HeapFile) : Action StorageError HeapCursor Unit := do
  if (← Action.state).opened then pure ()
  else if f.pageCount (← Action.database).disk = 0 then throw .emptyFile
  else Action.update fun c => { c with opened := true }

/-- Closes the cursor. -/
def close : Action StorageError HeapCursor Unit :=
  Action.update fun _ => closed

/-- Whether there is one more row. Looks at no more than `fuel` pages. -/
def search (f : HeapFile) : (fuel : Nat) → Action StorageError HeapCursor Bool
  | 0 => throw .outOfFuel
  | fuel + 1 => do
    let c ← Action.state
    if c.pending ≠ [] then pure true
    else if f.pageCount (← Action.database).disk ≤ c.nextPage then pure false
    else
      let b ← Action.ofDb id (Database.getPage ⟨f.id, c.nextPage⟩)
      Action.update fun c => { c with pending := b.page.rows, nextPage := c.nextPage + 1 }
      search f fuel

/-- Whether an open cursor has one more row. -/
def hasNext (f : HeapFile) (fuel : Nat) : Action StorageError HeapCursor Bool := do
  if (← Action.state).opened then search f fuel
  else throw .notOpen

/-- The next row of an open cursor. -/
def next (f : HeapFile) (fuel : Nat) : Action StorageError HeapCursor Row := do
  if ← hasNext f fuel then
    match (← Action.state).pending with
    | r :: rest =>
      Action.update fun c => { c with pending := rest }
      pure r
    | [] => throw .noMoreRows
  else throw .noMoreRows

/-- Starts an open cursor over. -/
def rewind (f : HeapFile) : Action StorageError HeapCursor Unit := do
  if (← Action.state).opened then
    close
    start f
  else throw .notOpen

end HeapCursor

end RelStore
