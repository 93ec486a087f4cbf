/-
Grouped aggregation.

* `AggregateSpec` — what is aggregated: a column, by an aggregate, maybe by groups of another column;
* `AggregateSpec.absorb` — one more row goes into its group;
* `AggregateSpec.resultSchema` — the columns of the result;
* `Database.feed` — one more row for an aggregate that is shared with iterators.

An aggregate over numbers reads the column's value.  An aggregate over a column of any type can only count,
and does not look at the value.

Design notes.  Groups stand in the order in which their first rows arrived.  A row that is refused changes
nothing.
-/
import RelStore.Operator.Leaf

namespace RelStore

/-- An aggregate of one column, over all rows or by groups. -/
structure AggregateSpec where
  /-- The type of column that is aggregated; a `str` aggregate counts rows. -/
  input : FieldType
  /-- The grouping column and its type. -/
  group : Option (Nat × FieldType)
  field : Nat
  op : AggregateOp
deriving DecidableEq, Repr, Inhabited

/-- The columns of an aggregate: the group's column under its own name, and the value, named after the
aggregate and its column. -/
def Schema.aggregated (s : Schema) (field : Nat) (group : Option Nat) (op : AggregateOp) :
    Except SchemaError Schema := do
  let value := op.text ++ "(" ++ shownName (← s.nameAt field) ++ ")"
  match group with
  | none => Schema.named [(.int, value)]
  | some g =>
    let name ← s.nameAt g
    let type ← s.typeAt g
    Schema.named [(type, shownName name), (.int, value)]

namespace AggregateSpec

/-- The aggregate of a column of a schema: the types of its columns decide how it works. -/
def ofColumns (s : Schema) (field : Nat) (group : Option Nat) (op : AggregateOp) :
    Except SchemaError AggregateSpec := do
  match group with
  | none => pure ⟨← s.typeAt field, none, field, op⟩
  | some g =>
    let type ← s.typeAt g
    pure ⟨← s.typeAt field, some (g, type), field, op⟩

/-- Only numbers have other aggregates than the count. -/
def check (s : AggregateSpec) : Except ExecError Unit :=
  if s.input = .str ∧ s.op ≠ .count then .error (.aggregate (.unsupported s.op)) else .ok ()

/-- The columns of the result: the group, if there is one, and the value. -/
def resultSchema (s : AggregateSpec) : Schema :=
  ⟨(s.group.map (·.2)).toList ++ [.int], none⟩

/-- The key of a row's group. -/
def groupKey (s : AggregateSpec) (row : Row) : Except ExecError (Option Field) :=
  match s.group with
  | none => .ok none
  | some (i, type) =>
    match row.fields[i]? with
    | none => .error (.schema (.indexOutOfRange i))
    | some f => if f.type = type then .ok (some f) else .error (.schemaMismatch type.text f.type.text)

/-- What a row adds to the statistics of its group. -/
def contribution (s : AggregateSpec) (row : Row) : Except ExecError (Stat → Stat) :=
  match row.fields[s.field]? with
  | none => .error (.schema (.indexOutOfRange s.field))
  | some f =>
    match s.input, f with
    | .int, .int value => .ok (·.update value)
    | .int, .str _ => .error (.schemaMismatch FieldType.int.text FieldType.str.text)
    | .str, _ => .ok Stat.updateCount

/-- One more row in its group. -/
def absorb (s : AggregateSpec) (groups : Groups) (row : Row) : Except ExecError Groups :=
  match s.groupKey row with
  | .error e => .error e
  | .ok key =>
    match s.contribution row with
    | .error e => .error e
    | .ok change => .ok (groups.insert key (change ((groups.get? key).getD Stat.empty)))

end AggregateSpec

/-- Starts a shared running aggregate without rows and answers its number. -/
def Database.newGroups {ε : Type} : DbM ε Nat := do
  let db ← get
  let number := db.running.entries.length
  set { db with running := db.running.insert number {} }
  pure number

/-- One more row for a shared running aggregate. -/
def Database.feed (spec : AggregateSpec) (number : Nat) (row : Row) : DbM ExecError Unit := do
  let db ← get
  let groups ← Fallible.ofExcept (spec.absorb ((db.running.get? number).getD {}) row)
  set { db with running := db.running.insert number groups }

end RelStore
