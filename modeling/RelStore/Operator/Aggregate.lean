/-
Aggregation of a child's rows.

The child is read to its end when the operator is opened and when it is rewound; then the operator hands out
one row for each group, or a single row without grouping.

* `Source.absorbAll` — reads the child to its end;
* `Source.aggregate` — the operator.
-/
import RelStore.Aggregate.Groups

namespace RelStore

/-- The state of an aggregation: the results left, once there are any, and the child. -/
structure AggregateState (β : Type) where
  results : Option PendingGroups := none
  child : Running β
deriving DecidableEq, Repr, Inhabited

namespace Source

variable {β : Type}

/-- Reads the child to its end, at most `fuel` rows. -/
def absorbAll (spec : AggregateSpec) (child : Source β) (groups : Groups) :
    (fuel : Nat) → Step (Running β) Groups
  | 0 => throw (.storage .outOfFuel)
  | fuel + 1 => do
    if ← child.hasNext then
      let row ← child.next
      let groups ← Fallible.ofExcept (spec.absorb groups row)
      absorbAll spec child groups fuel
    else pure groups

/-- Starts the child, reads it to its end and keeps the results. -/
def startAggregate (fuel : Nat) (spec : AggregateSpec) (child : Source β)
    (reset : Step (Running β) Unit) : Step (AggregateState β) Unit := do
  let onChild {α : Type} (a : Step (Running β) α) : Step (AggregateState β) α :=
    Action.on AggregateState.child (fun s c => { s with child := c }) a
  onChild reset
  let groups ← onChild (absorbAll spec child {} fuel)
  Action.update fun s => { s with results := some (snapshot spec.group.isSome groups) }

/-- Aggregates the rows of the child; the results come under `schema`. -/
def aggregate (fuel : Nat) (spec : AggregateSpec) (schema : Schema) (child : Source β) :
    Source (AggregateState β) where
  openBody := startAggregate fuel spec child child.open
  closeBody := fun s => ⟨none, child.close s.child⟩
  rewindBody := startAggregate fuel spec child child.rewind
  fetch := do
    match (← Action.state).results with
    | none => throw .notOpen
    | some pending =>
      Action.on (fun _ => pending) (fun s rest => { s with results := some rest })
        (fetchGroup spec.op schema)

end Source

end RelStore
