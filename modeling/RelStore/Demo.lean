/-
A sample run: employees and their departments.

The sample makes two tables on the disk, fills them, and asks two questions: who earns more than 4500 and
in which department, and what the mean salary of each department is.  It ends by saving the schema.  Run
again on the same disk, it finds the rows of the run before.

* `Demo.script` — the sample as an action that prints lines;
* `Demo.run` — the sample on a disk: the lines, whether it came to its end, and the disk afterwards.
-/
import RelStore.Config
import RelStore.Operator

namespace RelStore.Demo

/-- Why the sample stops early. -/
inductive DemoError where
  | schema (cause : SchemaError)
  | storage (cause : StorageError)
  | exec (cause : ExecError)
  | schemaFile (cause : SchemaFileError)
deriving DecidableEq, Repr, Inhabited

/-- The text of an error of the sample. -/
def DemoError.message : DemoError → String
  | schema cause => cause.message
  | storage cause => cause.message
  | exec cause => cause.message
  | schemaFile cause => cause.message

/-- A step of the sample; its local state is the lines printed so far. -/
abbrev Script (α : Type) := Action DemoError (List String) α

/-- Prints a line. -/
def print (line : String) : Script Unit :=
  Action.update (· ++ [line])

/-- The value of a computation, or its error. -/
def value {ε α : Type} (wrap : ε → DemoError) (r : Except ε α) : Script α :=
  Fallible.ofExcept (r.mapError wrap)

/-- Changes the database. -/
def modifyDatabase (change : Database → Database) : Script Unit :=
  modify fun (s, db) => (s, change db)

/-- Opens a heap file, which is made if it is missing. -/
def openFile (text : String) (schema : Schema) (pageSize : Nat) : Script HeapFile := do
  let (f, disk) ← value .storage (HeapFile.openAt (← Action.database).disk text schema pageSize)
  modifyDatabase fun db => { db with disk := disk }
  pure f

/-- Registers a heap file. -/
def register (f : HeapFile) (name : String) (key : String) : Script TableId := do
  modifyDatabase fun db => { db with catalog := db.catalog.register f name (some key) }
  pure f.id

/-- Opens an operator and prints all its rows, each after the same text. -/
def printRows (fuel : Nat) (before : String) (o : Operator) : Script Unit := do
  let (r, o, db) := o.open fuel (← Action.database)
  modifyDatabase fun _ => db
  value .exec r
  let (r, _, db) := o.collect fuel (← Action.database)
  modifyDatabase fun _ => db
  for row in ← value .exec r do
    print (before ++ row.text)

/-- Prints the columns of an operator and all its rows. -/
def printResult (fuel : Nat) (o : Operator) : Script Unit := do
  print (← value .schema o.schema.text)
  printRows fuel "" o

/-- The employees: number, name, department, salary. -/
def employees : List (List Field) := [
  [.int 1, .str "Alice", .int 10, .int 5200],
  [.int 2, .str "Bob", .int 20, .int 4100],
  [.int 3, .str "Charlie", .int 10, .int 6100],
  [.int 4, .str "Dave", .int 30, .int 3900],
  [.int 5, .str "Eve", .int 20, .int 4700]]

/-- The departments: number, name. -/
def departments : List (List Field) := [
  [.int 10, .str "Engineering"],
  [.int 20, .str "Sales"],
  [.int 30, .str "Support"]]

/-- The whole sample. -/
def script (fuel : Nat) (config : Config) : Script Unit := do
  let empSchema ← value .schema
    (Schema.named [(.int, "id"), (.str, "name"), (.int, "dept"), (.int, "salary")])
  let deptSchema ← value .schema (Schema.named [(.int, "id"), (.str, "name")])
  let emp ← openFile "sample-emp.dat" empSchema config.pageSize
  let dept ← openFile "sample-dept.dat" deptSchema config.pageSize
  let empId ← register emp "emp" "id"
  let deptId ← register dept "dept" "id"
  -- fill the tables
  let txn ← Action.ofDb .storage Database.begin
  let rows := Operator.values empSchema (employees.map (⟨empSchema, ·, none⟩))
  let insertion ← value .exec (Operator.insert (← Action.database).catalog txn rows empId)
  printRows fuel "inserted into emp: " insertion
  for fields in departments do
    Action.ofDb .storage (Database.insertRow txn deptId ⟨deptSchema, fields, none⟩)
  Action.ofDb .storage Database.flush
  -- employees with more than 4500, and their departments
  let catalog := (← Action.database).catalog
  let scanEmp ← value .exec (Operator.scan catalog empId (some "e"))
  let rich := Operator.filter ⟨3, .greater, .int 4500⟩ scanEmp
  let scanDept ← value .exec (Operator.scan catalog deptId (some "d"))
  printResult fuel (← value .exec (Operator.join ⟨2, .equal, 0⟩ rich scanDept))
  -- the mean salary of each department
  let scanEmp ← value .exec (Operator.scanNamed catalog empId)
  printResult fuel (← value .exec (Operator.aggregate scanEmp 3 (some 2) .avg))
  let disk ← value .schemaFile
    (SchemaFile.save (← Action.database).disk (← Action.database).catalog "sample-catalog.bin")
  modifyDatabase fun db => { db with disk := disk }

/-- Runs the sample on a disk. -/
def run (fuel : Nat) (disk : Disk) : List String × Except DemoError Unit × Disk :=
  let config := Config.standard
  let db := { Database.ofPoolSize config.poolSize with disk := disk }
  let (r, lines, db) := (script fuel config).outcome ([], db)
  (lines, r, db.disk)

end RelStore.Demo
