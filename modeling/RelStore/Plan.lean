/-
Plans: trees of operators.

* `Plan` — what a tree of operators does, without its state;
* `Plan.Body` — the state that a plan's operators need;
* `Plan.source` — a plan as a source of rows;
* `Plan.fresh` — the state of a plan that was never opened.

Design notes.  A plan fixes the shape of its state, so running a plan is a recursion over the plan.  The
loops inside (a filter looking for a row, an aggregate reading its child) are bounded by `fuel`; an answer
found with some fuel is found with more.
-/
import RelStore.Operator.Filter
import RelStore.Operator.Join
import RelStore.Operator.Change
import RelStore.Operator.Aggregate

namespace RelStore

/-- What a scan tells about the table that it reads. -/
structure ScanTarget where
  table : TableId
  /-- The name of the table. -/
  name : String
  /-- What the columns are qualified by. -/
  label : Option String
deriving DecidableEq, Repr, Inhabited

/-- A tree of operators. -/
inductive Plan where
  /-- The rows of a file under a schema. -/
  | scan (target : ScanTarget) (file : HeapFile) (schema : Schema)
  /-- A fixed list of rows. -/
  | values (schema : Schema) (rows : List Row)
  /-- The rows that a predicate accepts. -/
  | filter (predicate : Predicate) (child : Plan)
  /-- Some columns. -/
  | project (fields : List Nat) (schema : Schema) (child : Plan)
  /-- The pairs of rows that a predicate accepts. -/
  | join (predicate : JoinPredicate) (schema : Schema) (left right : Plan)
  /-- Stores the rows in a table. -/
  | insert (txn : TxnId) (table : TableId) (schema : Schema) (child : Plan)
  /-- Removes the rows from their tables. -/
  | delete (txn : TxnId) (child : Plan)
  /-- An aggregate of the rows. -/
  | aggregate (spec : AggregateSpec) (schema : Schema) (child : Plan)
  /-- The results of a shared running aggregate. -/
  | groups (number : Nat) (spec : AggregateSpec)
deriving DecidableEq, Repr, Inhabited

namespace Plan

/-- The columns of the rows that a plan hands out. -/
def schema : Plan → Schema
  | scan _ _ schema => schema
  | values schema _ => schema
  | filter _ child => child.schema
  | project _ schema _ => schema
  | join _ schema _ _ => schema
  | insert .. => countSchema
  | delete .. => countSchema
  | aggregate _ schema _ => schema
  | groups _ spec => spec.resultSchema

/-- The state of the operators of a plan, the outermost operator's protocol state left out. -/
def Body : Plan → Type
  | scan .. => HeapCursor
  | values .. => List Row
  | filter _ child => Running child.Body
  | project _ _ child => Running child.Body
  | join _ _ left right => JoinState left.Body right.Body
  | insert _ _ _ child => ChangeState child.Body
  | delete _ child => ChangeState child.Body
  | aggregate _ _ child => AggregateState child.Body
  | groups .. => PendingGroups

/-- A plan as a source of rows. -/
def source (fuel : Nat) : (p : Plan) → Source p.Body
  | scan _ file schema => Source.scan fuel file schema
  | values _ rows => Source.values rows
  | filter predicate child => (child.source fuel).filter fuel predicate
  | project fields schema child => (child.source fuel).project fields schema
  | join predicate schema left right =>
    Source.join fuel predicate schema (left.source fuel) (right.source fuel)
  | insert txn table schema child => (child.source fuel).insert fuel txn table schema
  | delete txn child => (child.source fuel).delete fuel txn
  | aggregate spec schema child => (child.source fuel).aggregate fuel spec schema
  | groups number spec => Source.groups number spec.group.isSome spec.op spec.resultSchema

/-- The state before the first opening. -/
def fresh : (p : Plan) → p.Body
  | scan .. => HeapCursor.closed
  | values .. => ([] : List Row)
  | filter _ child => Running.closed child.fresh
  | project _ _ child => Running.closed child.fresh
  | join _ _ left right => ⟨false, none, Running.closed left.fresh, Running.closed right.fresh⟩
  | insert _ _ _ child => ⟨0, false, Running.closed child.fresh⟩
  | delete _ child => ⟨0, false, Running.closed child.fresh⟩
  | aggregate _ _ child => ⟨none, Running.closed child.fresh⟩
  | groups .. => ([] : PendingGroups)

end Plan

end RelStore
