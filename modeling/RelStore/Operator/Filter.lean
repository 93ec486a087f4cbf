/-
Filters and projections.

* `Source.filter` — the rows of the child that a predicate accepts;
* `Source.project` — some fields of every row of the child.
-/
import RelStore.Operator.Source
import RelStore.Predicate

namespace RelStore

namespace Source

variable {β : Type}

/-- The next accepted row of the child. Looks at no more than `fuel` rows. -/
def fetchAccepted (p : Predicate) (child : Source β) : (fuel : Nat) → Step (Running β) (Option Row)
  | 0 => throw (.storage .outOfFuel)
  | fuel + 1 => do
    if ← child.hasNext then
      let row ← child.next
      if p.accepts row then pure (some row) else fetchAccepted p child fuel
    else pure none

/-- Passes on the rows of the child that the predicate accepts. -/
def filter (fuel : Nat) (p : Predicate) (child : Source β) : Source (Running β) where
  openBody := child.open
  closeBody := child.close
  rewindBody := child.rewind
  fetch := fetchAccepted p child fuel

/-- The listed fields of a row, in the order of the list. A field that the row lacks is left out. -/
def pick (fields : List Nat) (schema : Schema) (row : Row) : Row :=
  ⟨schema, fields.filterMap (row.fields[·]?), none⟩

/-- Passes on the listed fields of every row of the child. -/
def project (fields : List Nat) (schema : Schema) (child : Source β) : Source (Running β) where
  openBody := child.open
  closeBody := child.close
  rewindBody := child.rewind
  fetch := do
    if ← child.hasNext then
      let row ← child.next
      pure (some (pick fields schema row))
    else pure none

end Source

end RelStore
