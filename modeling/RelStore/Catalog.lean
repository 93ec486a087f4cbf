/-
The catalog: which tables there are, and what they are called.

* `Catalog.register` — a table under a name; it takes the place of the table that had the name, and of
  the name that the table had;
* `Catalog.tableId?`, `Catalog.table` — from names to tables, and from tables to all about them;
* `Catalog.get?_tables_register`, `Catalog.get?_names_register` — what is found after a registration;
* `Catalog.records` — what a schema file holds, in the order of the names;
* `SchemaFile.save`, `SchemaFile.load` — the catalog to and from a file of the disk.

Design notes.  Loading opens and registers one table after the other; when one cannot be opened the
tables before it stay registered, so the result of `load` is a catalog and a disk in every case.
-/
import RelStore.Codec.Record
import RelStore.Storage.HeapFile

namespace RelStore

/-- A registered table. -/
structure Table where
  name : String
  file : HeapFile
  key : Option String
deriving DecidableEq, Repr, Inhabited

/-- The registered tables by id, and their ids by name. -/
structure Catalog where
  tables : Assoc TableId Table := {}
  names : Assoc String TableId := {}
deriving DecidableEq, Repr, Inhabited

namespace Catalog

/-- The catalog without tables. -/
def empty : Catalog := {}

/-- Forgets the table that has the name. -/
def dropName (c : Catalog) (name : String) : Catalog :=
  match c.names.get? name with
  | some id => ⟨c.tables.erase id, c.names.erase name⟩
  | none => c

/-- Forgets the table that has the id. -/
def dropTable (c : Catalog) (id : TableId) : Catalog :=
  match c.tables.get? id with
  | some t => ⟨c.tables.erase id, c.names.erase t.name⟩
  | none => c

/-- Registers a file under a name. What had the name, or the file, before is forgotten. -/
def register (c : Catalog) (file : HeapFile) (name : String) (key : Option String) : Catalog :=
  let c := (c.dropName name).dropTable file.id
  ⟨c.tables.insert file.id ⟨name, file, key⟩, c.names.insert name file.id⟩

/-- The table with the name. -/
def tableId? (c : Catalog) (name : String) : Option TableId :=
  c.names.get? name

/-- All about a table. -/
def table (c : Catalog) (id : TableId) : Except StorageError Table :=
  match c.tables.get? id with
  | some t => .ok t
  | none => .error (.unknownTable id)

/-- The file of a table. -/
def file (c : Catalog) (id : TableId) : Except StorageError HeapFile :=
  (c.table id).map Table.file

/-- The ids of all tables, in the order of their texts. -/
def tableIds (c : Catalog) : List TableId :=
  c.tables.keys.mergeSort (fun a b => a.text ≤ b.text)

/-- What a schema file on the disk holds about the tables, in the order of the names. -/
def records (c : Catalog) (d : Disk) : List TableRecord :=
  (c.tables.values.map fun t =>
    ⟨t.name, d.absolute (Path.text t.file.path), t.file.schema, t.key⟩).mergeSort
      (fun a b => a.name ≤ b.name)

theorem table_eq_ok_iff {c : Catalog} {id : TableId} {t : Table} :
    c.table id = .ok t ↔ c.tables.get? id = some t := by
  rw [table]
  split
  · next t' ht => simp [ht]
  · next hnone => simp [hnone]

theorem get?_tables_dropName (c : Catalog) (name : String) (id : TableId) :
    (c.dropName name).tables.get? id
      = if c.names.get? name = some id then none else c.tables.get? id := by
  rw [dropName]
  split
  · next old hold => simp [hold]
  · next hnone => simp [hnone]

theorem get?_tables_dropTable (c : Catalog) (id id' : TableId) :
    (c.dropTable id).tables.get? id' = if id = id' then none else c.tables.get? id' := by
  rw [dropTable]
  split
  · exact Assoc.get?_erase ..
  · next hnone =>
    split
    · next heq => rw [← heq, hnone]
    · rfl

theorem get?_names_dropName (c : Catalog) (name other : String) :
    (c.dropName name).names.get? other = if name = other then none else c.names.get? other := by
  rw [dropName]
  split
  · exact Assoc.get?_erase ..
  · next hnone =>
    split
    · next heq => rw [← heq, hnone]
    · rfl

theorem get?_names_dropTable (c : Catalog) (id : TableId) (other : String) :
    (c.dropTable id).names.get? other
      = if (c.tables.get? id).map Table.name = some other then none else c.names.get? other := by
  rw [dropTable]
  split
  · next t ht => simp [ht]
  · next hnone => simp [hnone]

theorem nodup_keys_dropName {c : Catalog} (h : c.tables.keys.Nodup) (name : String) :
    (c.dropName name).tables.keys.Nodup := by
  rw [dropName]
  split
  · exact Assoc.nodup_keys_erase h _
  · exact h

theorem nodup_keys_dropTable {c : Catalog} (h : c.tables.keys.Nodup) (id : TableId) :
    (c.dropTable id).tables.keys.Nodup := by
  rw [dropTable]
  split
  · exact Assoc.nodup_keys_erase h _
  · exact h

/-- The tables after a registration: the new one, and those that had neither its name nor its file. -/
theorem get?_tables_register (c : Catalog) (file : HeapFile) (name : String) (key : Option String)
    (id : TableId) :
    (c.register file name key).tables.get? id
      = if file.id = id then some ⟨name, file, key⟩
        else if c.names.get? name = some id then none else c.tables.get? id := by
  simp only [register, Assoc.get?_insert, get?_tables_dropTable, get?_tables_dropName]
  split <;> rfl

/-- The names after a registration. The name that the file had before is free again. -/
theorem get?_names_register (c : Catalog) (file : HeapFile) (name : String) (key : Option String)
    (other : String) :
    (c.register file name key).names.get? other
      = if name = other then some file.id
        else if ((c.dropName name).tables.get? file.id).map Table.name = some other then none
        else c.names.get? other := by
  simp only [register, Assoc.get?_insert, get?_names_dropTable, get?_names_dropName]
  split <;> rfl

end Catalog

/-- Why a schema file cannot be saved or loaded. -/
inductive SchemaFileError where
  | reading (path : String) (cause : DiskError)
  | decoding (path : String)
  | opening (table : String) (cause : StorageError)
  | writing (path : String) (cause : DiskError)
deriving DecidableEq, Repr, Inhabited

/-- The text of a schema file error. -/
def SchemaFileError.message : SchemaFileError → String
  | reading path _ => "reading schema from " ++ path
  | decoding path => "decoding schema " ++ path
  | opening table _ => "opening table " ++ table
  | writing path _ => "writing schema to " ++ path

namespace SchemaFile

/-- Saves all tables of a catalog. -/
def save (d : Disk) (c : Catalog) (text : String) : Except SchemaFileError Disk :=
  match d.replace text (.ofList (Codec.writeTables (c.records d))) with
  | .ok d => .ok d
  | .error e => .error (.writing (d.absolute text) e)

/-- Opens and registers tables one after the other. Their files are named from the directory of the schema
file. -/
def openTables (text : String) (pageSize : Nat) (d : Disk) (c : Catalog) :
    List TableRecord → Except SchemaFileError (List TableId) × Catalog × Disk
  | [] => (.ok [], c, d)
  | t :: ts =>
    match HeapFile.openAt d (Path.beside text t.file) t.schema pageSize with
    | .error e => (.error (.opening t.name e), c, d)
    | .ok (file, d) =>
      let (ids, c, d) := openTables text pageSize d (c.register file t.name t.key) ts
      (ids.map (file.id :: ·), c, d)

/-- Opens and registers every table of a schema file, in the order of the file. -/
def load (d : Disk) (c : Catalog) (text : String) (pageSize : Nat) :
    Except SchemaFileError (List TableId) × Catalog × Disk :=
  match d.read text with
  | .error e => (.error (.reading (d.absolute text) e), c, d)
  | .ok bytes =>
    match Codec.decode Codec.readTables bytes.toList with
    | none => (.error (.decoding (d.absolute text)), c, d)
    | some ts => openTables text pageSize d c ts

end SchemaFile

end RelStore
