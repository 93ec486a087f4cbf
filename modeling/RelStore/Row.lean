/-
Rows and where they are stored.

A table is known by the file that holds it.  Its pages are numbered from zero, and a row on a page is
known by its slot.

* `TableId`, `PageId`, `RecordId` — the three addresses, from coarse to fine;
* `Row` — fields under a schema, with the address of a stored row;
* `Row.sameValue` — equality of rows, in which neither address nor column names count.

Design notes.  A table id is the canonical path of the table's file, so two ways to name one file give
one table.  A caller may also hold a bare number as an id; no file has one.
-/
import RelStore.Path
import RelStore.Schema

namespace RelStore

/-- What identifies a table: the path of its file, or a number that no file has. -/
inductive TableId where
  | file (path : Path)
  | number (n : Nat)
deriving DecidableEq, Repr, Inhabited

/-- The text of a table id. -/
def TableId.text : TableId → String
  | file path => Path.text path
  | number n => toString n

/-- A page of a table. -/
structure PageId where
  table : TableId
  number : Nat
deriving DecidableEq, Repr, Inhabited

/-- The text of a page id. -/
def PageId.text (p : PageId) : String :=
  p.table.text ++ ":" ++ toString p.number

/-- A slot of a page. -/
structure RecordId where
  page : PageId
  slot : Nat
deriving DecidableEq, Repr, Inhabited

/-- The text of a record id, with every part named. -/
def RecordId.text (r : RecordId) : String :=
  "RecordId \x7b page_id: HeapPageId \x7b table_id: TableId(" ++ r.page.table.text
    ++ "), page_no: " ++ toString r.page.number ++ " \x7d, slot: " ++ toString r.slot ++ " \x7d"

/-- Fields under a schema. A row that is stored on a page has a record id. -/
structure Row where
  schema : Schema
  fields : List Field
  record : Option RecordId := none
deriving DecidableEq, Repr, Inhabited

namespace Row

/-- The text of a row: the fields with tabs between them. -/
def text (r : Row) : String :=
  "\t".intercalate (r.fields.map Field.text)

/-- Whether two rows have the same types and the same fields. -/
def sameValue (a b : Row) : Bool :=
  a.schema.agrees b.schema && a.fields = b.fields

/-- The same fields at the same address under another schema. -/
def withSchema (r : Row) (s : Schema) : Row :=
  { r with schema := s }

/-- The fields of `a` followed by those of `b`, at no address. -/
def append (s : Schema) (a b : Row) : Row :=
  ⟨s, a.fields ++ b.fields, none⟩

/-- Every field has the type of its column, as far as there are both. -/
def wellTyped (s : Schema) (fields : List Field) : Bool :=
  (fields.zip s.types).all (fun p => p.1.type = p.2)

end Row

end RelStore
