/-
Running statistics of a group of numbers.

* `Stat.update`, `Stat.updateCount` — one more number, or one more row of any kind;
* `Stat.emit` — the value of an aggregate over the numbers so far.

The mean is cut toward zero.  The least and the greatest of no numbers are the greatest and the least
number there is.

Design notes.  Count and sum are words of 64 bits, and the mean divides by the count read as a signed
word; `quotientOverflow` is the one quotient that is no such word.
-/
import RelStore.Field

namespace RelStore

/-- The aggregates. -/
inductive AggregateOp where
  | min
  | max
  | sum
  | avg
  | count
deriving DecidableEq, Repr, Inhabited

/-- The name of an aggregate. -/
def AggregateOp.text : AggregateOp → String
  | min => "min"
  | max => "max"
  | sum => "sum"
  | avg => "avg"
  | count => "count"

/-- Why an aggregate has no value. -/
inductive AggregateError where
  | unsupported (op : AggregateOp)
  | emptyInput (op : AggregateOp)
  | overflow (op : AggregateOp)
  | quotientOverflow
deriving DecidableEq, Repr, Inhabited

/-- The text of an aggregate error. -/
def AggregateError.message : AggregateError → String
  | unsupported op => op.text ++ " is not supported by this aggregator"
  | emptyInput op => op.text ++ " of an empty input is undefined"
  | overflow op => op.text ++ " overflowed"
  | quotientOverflow => "the quotient of the mean overflowed"

/-- Count, sum, least and greatest of the numbers of a group. -/
structure Stat where
  count : UInt64 := 0
  sum : Int64 := 0
  min : Int32 := Int32.maxValue
  max : Int32 := Int32.minValue
deriving DecidableEq, Repr, Inhabited

namespace Stat

/-- The statistics of no numbers. -/
def empty : Stat := {}

/-- One more number. -/
def update (s : Stat) (value : Int32) : Stat where
  count := s.count + 1
  sum := s.sum + value.toInt64
  min := if value < s.min then value else s.min
  max := if s.max < value then value else s.max

/-- One more row whose value does not matter. -/
def updateCount (s : Stat) : Stat :=
  { s with count := s.count + 1 }

/-- The number as a column value, if it is in range. -/
def toColumn (op : AggregateOp) (n : Int) : Except AggregateError Int32 :=
  if Int32.minValue.toInt ≤ n ∧ n ≤ Int32.maxValue.toInt then .ok (Int32.ofInt n)
  else .error (.overflow op)

/-- The value of an aggregate over the group. -/
def emit (s : Stat) : AggregateOp → Except AggregateError Int32
  | .count => toColumn .count s.count.toNat
  | .sum => toColumn .sum s.sum.toInt
  | .min => .ok s.min
  | .max => .ok s.max
  | .avg =>
    if s.count = 0 then .error (.emptyInput .avg)
    else if s.sum = Int64.minValue ∧ s.count.toInt64 = -1 then .error .quotientOverflow
    else toColumn .avg (s.sum / s.count.toInt64).toInt

end Stat

end RelStore
