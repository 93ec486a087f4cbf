/-
Why operators fail.

An operator passes on the errors of storage, of schemas and of aggregates, and has some of its own.
`ExecError.message` words them all.
-/
import RelStore.Storage.Error
import RelStore.Aggregate.Stat

namespace RelStore

/-- The two operators that change a table. -/
inductive Mutation where
  | insert
  | delete
deriving DecidableEq, Repr, Inhabited

/-- The name of a change. -/
def Mutation.text : Mutation → String
  | insert => "insert"
  | delete => "delete"

/-- What can go wrong with an operator. -/
inductive ExecError where
  | notOpen
  | noMoreRows
  | schemaMismatch (expected found : String)
  | storage (cause : StorageError)
  /-- A change that stopped after some rows. -/
  | mutation (kind : Mutation) (count : Nat) (cause : StorageError)
  /-- More rows than the column of the answer can count. -/
  | countOverflow (kind : Mutation) (count : Nat)
  | aggregate (cause : AggregateError)
  | schema (cause : SchemaError)
deriving DecidableEq, Repr, Inhabited

/-- The error for a schema that is not the expected one. -/
def ExecError.mismatch (expected found : Schema) : ExecError :=
  match schemaTexts expected found with
  | .ok (e, f) => .schemaMismatch e f
  | .error cause => .schema cause

/-- The text of an operator's error. -/
def ExecError.message : ExecError → String
  | notOpen => "operator is not open"
  | noMoreRows => "no more tuples"
  | schemaMismatch expected found => mismatchText expected found
  | storage cause => cause.message
  | mutation kind count _ => s!"{kind.text} failed after {count} tuples"
  | countOverflow kind count => s!"{kind.text} count {count} does not fit an INT"
  | aggregate cause => cause.message
  | schema cause => cause.message

end RelStore
