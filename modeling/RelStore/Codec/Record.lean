/-
The bytes of schemas, table records and configurations.

Lists and texts have their length before them, an option has a byte 0 or 1, a column type is the number
of its place, and a structure is its parts in order.

* `Codec.writeSchema`, `Codec.readSchema` — one schema;
* `Codec.writeTables`, `Codec.readTables` — the tables of a schema file;
* `Codec.decode` — a reader used on a whole input, which it must use up.

Design notes.  A reader checks the format only: a schema without columns, or with too few names, is read.
-/
import RelStore.Codec.Varint
import RelStore.Field.Image
import RelStore.Schema

namespace RelStore

/-- What a schema file holds about one table. -/
structure TableRecord where
  name : String
  file : String
  schema : Schema
  key : Option String
deriving DecidableEq, Repr, Inhabited

namespace Codec

/-- A list: its length, then its elements. -/
def writeList {α : Type} (write : α → List UInt8) (xs : List α) : List UInt8 :=
  Varint.write xs.length ++ xs.flatMap write

/-- An option: a byte 0, or a byte 1 and the value. -/
def writeOption {α : Type} (write : α → List UInt8) : Option α → List UInt8
  | none => [0]
  | some x => 1 :: write x

/-- A text: the number of its bytes, then the bytes. -/
def writeText (s : String) : List UInt8 :=
  Varint.write (textBytes s).length ++ textBytes s

/-- A column type: its place. -/
def writeType : FieldType → List UInt8
  | .int => [0]
  | .str => [1]

/-- A schema: types, then the names if there are any. -/
def writeSchema (s : Schema) : List UInt8 :=
  writeList writeType s.types ++ writeOption (writeList (writeOption writeText)) s.names

/-- A table record: name, file, schema, primary key. -/
def writeTable (t : TableRecord) : List UInt8 :=
  writeText t.name ++ writeText t.file ++ writeSchema t.schema ++ writeOption writeText t.key

/-- The tables of a schema file. -/
def writeTables (ts : List TableRecord) : List UInt8 :=
  writeList writeTable ts

/-- As many values as asked for. -/
def readMany {α : Type} (read : Reader α) : Nat → Reader (List α)
  | 0 => pure []
  | n + 1 => do
    let x ← read
    let xs ← readMany read n
    pure (x :: xs)

/-- A list. -/
def readList {α : Type} (read : Reader α) : Reader (List α) := do
  let n ← Varint.read
  readMany read n

/-- An option. -/
def readOption {α : Type} (read : Reader α) : Reader (Option α)
  | 0 :: bytes => some (none, bytes)
  | 1 :: bytes => (read bytes).map (fun p => (some p.1, p.2))
  | _ => none

/-- As many bytes as asked for. -/
def readBytes (n : Nat) : Reader (List UInt8) := fun bytes =>
  let front := bytes.take n
  if front.length = n then some (front, bytes.drop n) else none

/-- A text, if its bytes are valid UTF-8. -/
def readText : Reader String := do
  let n ← Varint.read
  let bytes ← readBytes n
  StateT.lift (textOfBytes? bytes)

/-- A column type. -/
def readType : Reader FieldType := do
  match ← Varint.read with
  | 0 => pure .int
  | 1 => pure .str
  | _ => failure

/-- A schema. -/
def readSchema : Reader Schema := do
  let types ← readList readType
  let names ← readOption (readList (readOption readText))
  pure ⟨types, names⟩

/-- A table record. -/
def readTable : Reader TableRecord := do
  let name ← readText
  let file ← readText
  let schema ← readSchema
  let key ← readOption readText
  pure ⟨name, file, schema, key⟩

/-- The tables of a schema file. -/
def readTables : Reader (List TableRecord) :=
  readList readTable

/-- The value of a whole input: a reader must accept it and leave nothing over. -/
def decode {α : Type} (read : Reader α) (bytes : List UInt8) : Option α :=
  match read bytes with
  | some (x, []) => some x
  | _ => none

end Codec

end RelStore
