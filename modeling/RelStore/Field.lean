/-
Field values and how they compare.

A column holds whole numbers of 32 bits or texts.  A field knows its own type, has a text form, and can
be compared with another field by one of seven comparisons.

* `Field.satisfies` — does `a op b` hold; fields of different types satisfy no comparison at all;
* `Field.compare` — the order used for sorting, in which every number comes before every text;
* `Field.satisfies_of_type_ne` — the rule for mixed types.

Design notes.  Numbers are `Int32`, since a stored number is a word of four bytes.  Texts are ordered by
code points, which is also the order of their UTF-8 bytes.
-/

namespace RelStore

/-- The two types of a column. -/
inductive FieldType where
  | int
  | str
deriving DecidableEq, Repr, Inhabited

namespace FieldType

/-- The most bytes of a text that a page keeps. -/
def textLimit : Nat := 128

/-- The bytes that every field of the type takes on a page. A text has a length word before it. -/
def width : FieldType → Nat
  | .int => 4
  | .str => 4 + textLimit

/-- The name of the type in messages. -/
def text : FieldType → String
  | .int => "INT_TYPE"
  | .str => "STRING_TYPE"

end FieldType

/-- A value of a column. -/
inductive Field where
  | int (value : Int32)
  | str (value : String)
deriving DecidableEq, Repr, Inhabited

/-- The comparisons that predicates are made of. -/
inductive Comparison where
  | equal
  | notEqual
  | greater
  | greaterOrEqual
  | less
  | lessOrEqual
  | like
deriving DecidableEq, Repr, Inhabited

namespace Comparison

/-- All comparisons. -/
def all : List Comparison :=
  [equal, notEqual, greater, greaterOrEqual, less, lessOrEqual, like]

/-- The sign that stands for the comparison. -/
def symbol : Comparison → String
  | equal => "="
  | notEqual => "<>"
  | greater => ">"
  | greaterOrEqual => ">="
  | less => "<"
  | lessOrEqual => "<="
  | like => "LIKE"

/-- Whether the comparison accepts two values that stand in the given order. -/
def accepts : Comparison → Ordering → Bool
  | equal, o => o == .eq
  | like, o => o == .eq
  | notEqual, o => o != .eq
  | greater, o => o == .gt
  | greaterOrEqual, o => o != .lt
  | less, o => o == .lt
  | lessOrEqual, o => o != .gt

end Comparison

namespace Field

/-- The type that a value belongs to. -/
def type : Field → FieldType
  | int _ => .int
  | str _ => .str

/-- The number in a field, if it holds one. -/
def toInt? : Field → Option Int32
  | int v => some v
  | str _ => none

/-- The text form: decimal for a number, the text itself for a text. -/
def text : Field → String
  | int v => toString v.toInt
  | str s => s

/-- Whether `part` stands somewhere in `whole` as a block of consecutive characters. -/
def occursIn (part : List Char) : List Char → Bool
  | [] => part.isEmpty
  | c :: whole => part.isPrefixOf (c :: whole) || occursIn part whole

/-- The sorting order: numbers by size, texts by code points, numbers before texts. -/
def compare : Field → Field → Ordering
  | int a, int b => Ord.compare a.toInt b.toInt
  | str a, str b => Ord.compare a b
  | int _, str _ => .lt
  | str _, int _ => .gt

/-- Whether `a op b` holds. `LIKE` asks for a block of the left text, or for equal numbers. -/
def satisfies (a : Field) (op : Comparison) (b : Field) : Bool :=
  match a, b with
  | int x, int y => op.accepts (Ord.compare x.toInt y.toInt)
  | str x, str y => if op = .like then occursIn y.toList x.toList else op.accepts (Ord.compare x y)
  | _, _ => false

/-- Fields of different types satisfy no comparison. -/
theorem satisfies_of_type_ne {a b : Field} (op : Comparison) (h : a.type ≠ b.type) :
    a.satisfies op b = false := by
  cases a <;> cases b <;> first | rfl | exact absurd rfl h

end Field

/-- The sorting order of lists of fields: the first difference decides, a shorter list comes first. -/
def compareFields : List Field → List Field → Ordering
  | [], [] => .eq
  | [], _ => .lt
  | _, [] => .gt
  | a :: as, b :: bs => (a.compare b).then (compareFields as bs)

end RelStore
