/-
Operators: plans in use.

* `Operator` — a plan with the state of all its operators;
* `Operator.open`, `Operator.hasNext`, `Operator.next`, `Operator.rewind`, `Operator.close` — the protocol;
* `Operator.scan`, `Operator.filter`, `Operator.join` and the others — new operators, over children that may
  be in use already;
* `Operator.setChild?`, `Operator.setChildren?` — other children for an operator, which keeps the rest of
  its state.

Design notes.  What can be refused is refused when an operator is built, before any row is asked for.
-/
import RelStore.Plan

namespace RelStore

/-- A plan in use. -/
structure Operator where
  plan : Plan
  state : Running plan.Body

namespace Operator

/-- A plan that was never opened. -/
def ofPlan (p : Plan) : Operator :=
  ⟨p, Running.closed p.fresh⟩

/-- The columns of the rows that an operator hands out. -/
def schema (o : Operator) : Schema :=
  o.plan.schema

/-- Runs a step of the operator. -/
def step {α : Type} (o : Operator) (a : (s : Source o.plan.Body) → Step (Running o.plan.Body) α)
    (fuel : Nat) (db : Database) : Except ExecError α × Operator × Database :=
  let (r, s, db) := (a (o.plan.source fuel)).outcome (o.state, db)
  (r, ⟨o.plan, s⟩, db)

/-- Opens the operator. -/
def «open» (o : Operator) (fuel : Nat) (db : Database) : Except ExecError Unit × Operator × Database :=
  o.step Source.open fuel db

/-- Whether there is one more row. -/
def hasNext (o : Operator) (fuel : Nat) (db : Database) :
    Except ExecError Bool × Operator × Database :=
  o.step Source.hasNext fuel db

/-- The next row. -/
def next (o : Operator) (fuel : Nat) (db : Database) : Except ExecError Row × Operator × Database :=
  o.step Source.next fuel db

/-- Starts over. -/
def rewind (o : Operator) (fuel : Nat) (db : Database) :
    Except ExecError Unit × Operator × Database :=
  o.step Source.rewind fuel db

/-- All rows that are left. -/
def collect (o : Operator) (fuel : Nat) (db : Database) :
    Except ExecError (List Row) × Operator × Database :=
  o.step (fun s => s.collect fuel) fuel db

/-- Closes the operator. -/
def close (o : Operator) (fuel : Nat) : Operator :=
  ⟨o.plan, (o.plan.source fuel).close o.state⟩

/-- The rows of a registered table. Columns are qualified by `label`. -/
def scan (c : Catalog) (id : TableId) (label : Option String) : Except ExecError Operator :=
  match c.table id with
  | .error e => .error (.storage e)
  | .ok t =>
    match t.file.schema.qualify label with
    | .error e => .error (.schema e)
    | .ok schema => .ok (ofPlan (.scan ⟨id, t.name, label⟩ t.file schema))

/-- The rows of a registered table. Columns are qualified by the table's own name. -/
def scanNamed (c : Catalog) (id : TableId) : Except ExecError Operator :=
  match c.table id with
  | .error e => .error (.storage e)
  | .ok t => scan c id (some t.name)

/-- A fixed list of rows. -/
def values (schema : Schema) (rows : List Row) : Operator :=
  ofPlan (.values schema rows)

/-- The rows of a child that a predicate accepts. -/
def filter (p : Predicate) (child : Operator) : Operator :=
  ⟨.filter p child.plan, Running.closed child.state⟩

/-- Some columns of a child. -/
def project (fields : List Nat) (child : Operator) : Except ExecError Operator :=
  match child.schema.project fields with
  | .error e => .error (.schema e)
  | .ok schema => .ok ⟨.project fields schema child.plan, Running.closed child.state⟩

/-- The pairs of rows of two children that a predicate accepts. -/
def join (p : JoinPredicate) (left right : Operator) : Except ExecError Operator :=
  match left.schema.append right.schema with
  | .error e => .error (.schema e)
  | .ok schema =>
    .ok ⟨.join p schema left.plan right.plan,
      Running.closed (⟨false, none, left.state, right.state⟩ : JoinState _ _)⟩

/-- Stores the rows of a child in a table of the same types. -/
def insert (c : Catalog) (txn : TxnId) (child : Operator) (id : TableId) :
    Except ExecError Operator :=
  match c.table id with
  | .error e => .error (.storage e)
  | .ok t =>
    if child.schema.agrees t.file.schema then
      .ok ⟨.insert txn id t.file.schema child.plan,
        Running.closed (⟨0, false, child.state⟩ : ChangeState _)⟩
    else .error (.mismatch t.file.schema child.schema)

/-- Removes the rows of a child from their tables. -/
def delete (txn : TxnId) (child : Operator) : Operator :=
  ⟨.delete txn child.plan, Running.closed (⟨0, false, child.state⟩ : ChangeState _)⟩

/-- An aggregate of a column of a child, maybe by groups of another column. -/
def aggregate (child : Operator) (field : Nat) (group : Option Nat) (op : AggregateOp) :
    Except ExecError Operator :=
  match child.schema.aggregated field group op, AggregateSpec.ofColumns child.schema field group op with
  | .error e, _ => .error (.schema e)
  | _, .error e => .error (.schema e)
  | .ok schema, .ok spec =>
    match spec.check with
    | .error e => .error e
    | .ok () =>
      .ok ⟨.aggregate spec schema child.plan,
        Running.closed (⟨none, child.state⟩ : AggregateState _)⟩

/-- The results of a shared running aggregate. -/
def groups (number : Nat) (spec : AggregateSpec) : Operator :=
  ofPlan (.groups number spec)

/-- The plans of the children. -/
def children (o : Operator) : List Plan :=
  match o.plan with
  | .filter _ child | .project _ _ child | .insert _ _ _ child | .delete _ child
  | .aggregate _ _ child => [child]
  | .join _ _ left right => [left, right]
  | .scan .. | .values .. | .groups .. => []

/-- The rows changed by the pass of an insertion or a deletion. -/
def changeCount? : Operator → Option Nat
  | ⟨.insert .., s⟩ => some s.body.count
  | ⟨.delete .., s⟩ => some s.body.count
  | _ => none

/-- Another child for a filter, an insertion or a deletion. -/
def setChild? : Operator → Operator → Option Operator
  | ⟨.filter p _, s⟩, child => some ⟨.filter p child.plan, ⟨s.opened, s.ahead, child.state⟩⟩
  | ⟨.insert txn table schema _, s⟩, child =>
    some ⟨.insert txn table schema child.plan,
      ⟨s.opened, s.ahead, ⟨s.body.count, s.body.finished, child.state⟩⟩⟩
  | ⟨.delete txn _, s⟩, child =>
    some ⟨.delete txn child.plan,
      ⟨s.opened, s.ahead, ⟨s.body.count, s.body.finished, child.state⟩⟩⟩
  | _, _ => none

/-- Other children for a join, whose columns change with them. -/
def setChildren? : Operator → Operator → Operator → Option (Except ExecError Operator)
  | ⟨.join p _ _ _, s⟩, left, right =>
    some <| match left.schema.append right.schema with
      | .error e => .error (.schema e)
      | .ok schema =>
        .ok ⟨.join p schema left.plan right.plan,
          ⟨s.opened, s.ahead, ⟨s.body.childEmpty, s.body.held, left.state, right.state⟩⟩⟩
  | _, _, _ => none

/-- Points a scan at another table and closes it. An unknown table changes nothing. When the table's columns
have no text, the scan tells of the new table but still reads the old one. -/
def resetScan? (c : Catalog) (id : TableId) (label : Option String) :
    Operator → Option (Except ExecError Unit × Operator)
  | o@⟨.scan _ file schema, _⟩ =>
    some <| match c.table id with
      | .error e => (.error (.storage e), o)
      | .ok t =>
        let target : ScanTarget := ⟨id, t.name, label⟩
        match t.file.schema.qualify label with
        | .error e => (.error (.schema e), ofPlan (.scan target file schema))
        | .ok schema => (.ok (), ofPlan (.scan target t.file schema))
  | _ => none

end Operator

end RelStore
