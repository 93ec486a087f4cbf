/-
Heap files: a table as a row of pages in one file.

Page `n` starts at byte `n * pageSize`.  A file that does not end with a whole page still counts the last
part as a page, which cannot be read.

* `HeapFile.openAt` — the heap file at a path, which is made if it is missing;
* `HeapFile.pageCount` — the number of pages, from the length of the file;
* `HeapFile.readPage`, `HeapFile.writePage` — one page from or to the disk;
* `HeapFile.pageSize_pos_of_open` — a heap file that opens has room for a row on its pages.
-/
import RelStore.Storage.Page

namespace RelStore

/-- A file of pages with one schema and one page size. -/
structure HeapFile where
  path : Path
  schema : Schema
  pageSize : Nat
deriving DecidableEq, Repr, Inhabited

namespace HeapFile

/-- The table that the file holds. -/
def id (f : HeapFile) : TableId :=
  .file f.path

/-- The heap file at a path text. Pages must have room for one row. -/
def openAt (d : Disk) (text : String) (schema : Schema) (pageSize : Nat) :
    Except StorageError (HeapFile × Disk) :=
  if slotCount schema pageSize = 0 then .error (.pageTooSmall pageSize schema.width)
  else
    match d.openFile text with
    | .ok (path, d) => .ok (⟨path, schema, pageSize⟩, d)
    | .error e => .error (.disk e)

/-- The number of pages, a part of a page at the end included. -/
def pageCount (f : HeapFile) (d : Disk) : Nat :=
  (d.fileSize f.path + f.pageSize - 1) / f.pageSize

/-- The page with the given id; none if it belongs to another table or lies past the end. -/
def readPage (f : HeapFile) (d : Disk) (id : PageId) : Except StorageError (Option Page) :=
  if id.table ≠ f.id ∨ f.pageCount d ≤ id.number then .ok none
  else
    let bytes := d.readAt f.path (f.pageSize * id.number) f.pageSize
    if bytes.length = f.pageSize then (Page.decode id f.schema bytes).map some
    else .error (.disk .unexpectedEnd)

/-- Writes a page at the place of its number. -/
def writePage (f : HeapFile) (d : Disk) (p : Page) : Except StorageError Disk :=
  (d.writeAt f.path (f.pageSize * p.id.number) p.bytes).mapError .disk

theorem pageSize_pos_of_open {d d' : Disk} {text : String} {schema : Schema} {pageSize : Nat}
    {f : HeapFile} (h : HeapFile.openAt d text schema pageSize = .ok (f, d')) : 0 < f.pageSize := by
  unfold HeapFile.openAt at h
  split at h
  · cases h
  · next hs =>
    split at h <;> cases h
    refine Nat.pos_of_ne_zero fun hz => hs ?_
    simp only at hz
    simp [slotCount, hz]

end HeapFile

end RelStore
