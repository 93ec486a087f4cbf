/-
Schemas: the column types of a table or of a result, with or without column names.

A schema built from types alone has no name list; it can be neither searched by name nor joined to another
schema.  In a schema that has a name list, single names may still be unset.  Two schemas agree when they
have the same types, whatever their names.

* `Schema.withNames`, `Schema.named`, `Schema.anonymous` — the checked ways to build one;
* `Schema.nameAt`, `Schema.typeAt`, `Schema.indexOf` — looking at its columns;
* `Schema.append` — the columns of two schemas side by side;
* `Schema.qualify` — every name with a table name before it;
* `Schema.project` — some of the columns;
* `Schema.Covers` — the name list, if there is one, reaches as far as the types.

Design notes.  A schema can also be read from a file, and a reader checks nothing but the format, so
`Covers` is no field of the structure.  What needs the missing name answers `nameListTooShort`;
`Schema.columns_of_covers` says that this is the only way for `columns` to fail.
-/
import RelStore.Text.Quoted
import RelStore.Field

namespace RelStore

/-- The columns of a table or of a result. -/
structure Schema where
  types : List FieldType
  names : Option (List (Option String))
deriving DecidableEq, Repr, Inhabited

/-- Why a schema cannot be built or does not have what was asked of it. -/
inductive SchemaError where
  | noFields
  | lengthMismatch (types names : Nat)
  | missingNames
  | noSuchField (name : String)
  | indexOutOfRange (index : Nat)
  /-- The name list ends before this column; only a schema read from a file can have such a list. -/
  | nameListTooShort (index : Nat)
deriving DecidableEq, Repr, Inhabited

/-- The text of a schema error. -/
def SchemaError.message : SchemaError → String
  | noFields => "a tuple desc needs at least one field"
  | lengthMismatch types names => s!"{types} field types but {names} field names"
  | missingNames => "tuple desc has no field names"
  | noSuchField name => "no field named " ++ Quoted.text name
  | indexOutOfRange index => s!"field index {index} out of range"
  | nameListTooShort index => s!"the name list ends before field {index}"

/-- One column: its type and its name, if set. -/
structure Column where
  type : FieldType
  name : Option String
deriving DecidableEq, Repr, Inhabited

/-- An unset name is shown as `null`. -/
def shownName (name : Option String) : String :=
  name.getD "null"

/-- The text form of a column. -/
def Column.text (c : Column) : String :=
  shownName c.name ++ "(" ++ c.type.text ++ ")"

namespace Schema

/-- A schema with a name list of the same length. -/
def withNames (types : List FieldType) (names : List (Option String)) : Except SchemaError Schema :=
  if types = [] then .error .noFields
  else if types.length ≠ names.length then .error (.lengthMismatch types.length names.length)
  else .ok ⟨types, some names⟩

/-- A schema whose columns are all named. -/
def named (fields : List (FieldType × String)) : Except SchemaError Schema :=
  withNames (fields.map (·.1)) (fields.map (fun f => some f.2))

/-- A schema without a name list. -/
def anonymous (types : List FieldType) : Except SchemaError Schema :=
  if types = [] then .error .noFields else .ok ⟨types, none⟩

/-- The number of columns. -/
def arity (s : Schema) : Nat :=
  s.types.length

/-- The bytes of some fields on a page, one after the other. -/
def totalWidth : List FieldType → Nat
  | [] => 0
  | t :: types => t.width + totalWidth types

/-- The bytes of one row on a page. -/
def width (s : Schema) : Nat :=
  totalWidth s.types

/-- Whether two schemas have the same types. -/
def agrees (a b : Schema) : Bool :=
  a.types = b.types

/-- The type of column `i`. -/
def typeAt (s : Schema) (i : Nat) : Except SchemaError FieldType :=
  match s.types[i]? with
  | some t => .ok t
  | none => .error (.indexOutOfRange i)

/-- The name of column `i`, if set. -/
def nameAt (s : Schema) (i : Nat) : Except SchemaError (Option String) :=
  if s.arity ≤ i then .error (.indexOutOfRange i)
  else match s.names with
    | none => .ok none
    | some names =>
      match names[i]? with
      | some name => .ok name
      | none => .error (.nameListTooShort i)

/-- The place of the first column called `name`. -/
def indexOf (s : Schema) (name : String) : Except SchemaError Nat :=
  match s.names with
  | none => .error .missingNames
  | some names =>
    match names.findIdx? (· = some name) with
    | some i => .ok i
    | none => .error (.noSuchField name)

/-- Pairs types with names from column `i` on. -/
def columnsFrom (i : Nat) : List FieldType → List (Option String) → Except SchemaError (List Column)
  | [], _ => .ok []
  | _ :: _, [] => .error (.nameListTooShort i)
  | t :: types, name :: names => (columnsFrom (i + 1) types names).map (⟨t, name⟩ :: ·)

/-- The columns from left to right. -/
def columns (s : Schema) : Except SchemaError (List Column) :=
  match s.names with
  | none => .ok (s.types.map (⟨·, none⟩))
  | some names => columnsFrom 0 s.types names

/-- The text form: the columns with commas between them. -/
def text (s : Schema) : Except SchemaError String :=
  s.columns.map (fun cs => ",".intercalate (cs.map Column.text))

/-- The columns of `a` followed by those of `b`. Both need a name list. -/
def append (a b : Schema) : Except SchemaError Schema :=
  match a.names, b.names with
  | some as, some bs => .ok ⟨a.types ++ b.types, some (as ++ bs)⟩
  | _, _ => .error .missingNames

/-- Renames every column to `table.column`; what is not set is written `null`. -/
def qualify (s : Schema) (table : Option String) : Except SchemaError Schema :=
  s.columns.map fun cs =>
    ⟨s.types, some (cs.map (fun c => some (shownName table ++ "." ++ shownName c.name)))⟩

/-- The types and names of the listed columns. -/
def pickColumns (s : Schema) : List Nat → Except SchemaError (List (FieldType × Option String))
  | [] => .ok []
  | i :: rest => do
    let type ← s.typeAt i
    let name ← s.nameAt i
    let columns ← s.pickColumns rest
    pure ((type, name) :: columns)

/-- The listed columns, in the order of the list. -/
def project (s : Schema) (fields : List Nat) : Except SchemaError Schema := do
  let columns ← s.pickColumns fields
  withNames (columns.map (·.1)) (columns.map (·.2))

/-- The name list, if there is one, has a name for every type. -/
def Covers (s : Schema) : Prop :=
  ∀ names, s.names = some names → s.types.length ≤ names.length

theorem agrees_iff {a b : Schema} : a.agrees b = true ↔ a.types = b.types := by
  simp [agrees]

theorem columnsFrom_of_le {i : Nat} {types : List FieldType} {names : List (Option String)}
    (h : types.length ≤ names.length) :
    columnsFrom i types names = .ok (types.zipWith Column.mk names) := by
  induction types generalizing i names with
  | nil => rfl
  | cons t types ih =>
    cases names with
    | nil => simp at h
    | cons name names =>
      simp only [List.length_cons, Nat.add_le_add_iff_right] at h
      simp [columnsFrom, ih h, Except.map]

/-- A schema whose names reach as far as its types has all its columns. -/
theorem columns_of_covers {s : Schema} (h : s.Covers) : ∃ cs, s.columns = .ok cs := by
  unfold columns
  split
  · exact ⟨_, rfl⟩
  · next names hn => exact ⟨_, columnsFrom_of_le (h names hn)⟩

/-- A schema whose names reach as far as its types has a text. -/
theorem text_of_covers {s : Schema} (h : s.Covers) : ∃ t, s.text = .ok t := by
  obtain ⟨cs, hcs⟩ := columns_of_covers h
  exact ⟨_, by rw [text, hcs]; rfl⟩

end Schema

end RelStore
