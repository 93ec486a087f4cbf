/-
Nested-loop joins.

The left child is the outer loop: each left row is paired with every right row, and the right child is
rewound whenever it runs out.  A row of the join is a left row followed by a right row.

* `Source.nextPair` — the next candidate pair;
* `Source.join` — the pairs that the predicate accepts.

Design notes.  Whether one of the children is empty is found out when the join is opened or rewound, and
is remembered.  A fetch takes the held left row out of the state before it asks the children, so a failing
child loses it.
-/
import RelStore.Operator.Source
import RelStore.Predicate

namespace RelStore

/-- The state of a join: the children, the held left row, and whether a child was empty at the start. -/
structure JoinState (β γ : Type) where
  childEmpty : Bool := false
  held : Option Row := none
  left : Running β
  right : Running γ
deriving DecidableEq, Repr, Inhabited

namespace Source

variable {β γ : Type}

/-- A step of the left child. -/
def onLeft {α : Type} (a : Step (Running β) α) : Step (JoinState β γ) α :=
  Action.on JoinState.left (fun s l => { s with left := l }) a

/-- A step of the right child. -/
def onRight {α : Type} (a : Step (Running γ) α) : Step (JoinState β γ) α :=
  Action.on JoinState.right (fun s r => { s with right := r }) a

/-- Drops the held row and finds out whether a child is empty. -/
def startPairs (left : Source β) (right : Source γ) : Step (JoinState β γ) Unit := do
  Action.update fun s => { s with held := none }
  if ← onLeft left.hasNext then
    let some? ← onRight right.hasNext
    Action.update fun s => { s with childEmpty := !some? }
  else
    Action.update fun s => { s with childEmpty := true }

/-- The left row of the next pair: the held one, or the next one of the left child. -/
def takeLeft (left : Source β) : Step (JoinState β γ) (Option Row) := do
  match (← Action.state).held with
  | some row =>
    Action.update fun s => { s with held := none }
    pure (some row)
  | none =>
    if ← onLeft left.hasNext then
      let row ← onLeft left.next
      pure (some row)
    else pure none

/-- The left row to pair with the next right row. When the right child has run out it is rewound, and the
left child goes on. -/
def advanceLeft (left : Source β) (right : Source γ) (row : Row) :
    Step (JoinState β γ) (Option Row) := do
  if ← onRight right.hasNext then pure (some row)
  else if ← onLeft left.hasNext then
    onRight right.rewind
    let row ← onLeft left.next
    pure (some row)
  else pure none

/-- The next candidate pair. Its left row is held for the pair after it. -/
def nextPair (left : Source β) (right : Source γ) : Step (JoinState β γ) (Option (Row × Row)) := do
  if (← Action.state).childEmpty then pure none
  else match ← takeLeft left with
    | none => pure none
    | some row =>
      match ← advanceLeft left right row with
      | none => pure none
      | some l =>
        let r ← onRight right.next
        Action.update fun s => { s with held := some l }
        pure (some (l, r))

/-- The next accepted pair. Looks at no more than `fuel` pairs. -/
def fetchPair (p : JoinPredicate) (schema : Schema) (left : Source β) (right : Source γ) :
    (fuel : Nat) → Step (JoinState β γ) (Option Row)
  | 0 => throw (.storage .outOfFuel)
  | fuel + 1 => do
    match ← nextPair left right with
    | none => pure none
    | some (l, r) =>
      if p.accepts l r then pure (some (Row.append schema l r))
      else fetchPair p schema left right fuel

/-- Pairs every left row with every right row and passes on the pairs that the predicate accepts. -/
def join (fuel : Nat) (p : JoinPredicate) (schema : Schema) (left : Source β) (right : Source γ) :
    Source (JoinState β γ) where
  openBody := do
    onLeft left.open
    onRight right.open
    startPairs left right
  closeBody := fun s => ⟨false, none, left.close s.left, right.close s.right⟩
  rewindBody := do
    onLeft left.rewind
    onRight right.rewind
    startPairs left right
  fetch := fetchPair p schema left right fuel

end Source

end RelStore
