/-
Predicates on rows.

* `Predicate.accepts` — compares one field of a row with a constant;
* `JoinPredicate.accepts` — compares a field of a left row with a field of a right row.

A predicate that asks for a field that the row does not have accepts nothing.
-/
import RelStore.Row

namespace RelStore

/-- One field of a row compared with a constant. -/
structure Predicate where
  field : Nat
  comparison : Comparison
  operand : Field
deriving DecidableEq, Repr, Inhabited

/-- Whether the row passes. -/
def Predicate.accepts (p : Predicate) (r : Row) : Bool :=
  match r.fields[p.field]? with
  | some f => f.satisfies p.comparison p.operand
  | none => false

/-- The text of a predicate. -/
def Predicate.text (p : Predicate) : String :=
  s!"f = {p.field} op = {p.comparison.symbol} operand = {p.operand.text}"

/-- A field of a left row compared with a field of a right row. -/
structure JoinPredicate where
  left : Nat
  comparison : Comparison
  right : Nat
deriving DecidableEq, Repr, Inhabited

/-- Whether the pair passes. -/
def JoinPredicate.accepts (p : JoinPredicate) (l r : Row) : Bool :=
  match l.fields[p.left]?, r.fields[p.right]? with
  | some a, some b => a.satisfies p.comparison b
  | _, _ => false

end RelStore
