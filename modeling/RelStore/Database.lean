/-
The database: a disk, a catalog and a page cache over them.

* `Database.getPage` — the buffer of a page, loaded from its file if it is not cached;
* `Database.insertRow`, `Database.deleteRow` — change a table through the cache, on behalf of a transaction;
* `Database.flush`, `Database.flushPages` — write changed pages, all of them or those of a transaction;
* `Database.fileInsert`, `Database.fileDelete` — the same changes through a heap file that need not be
  the registered one, and without a note that the page changed;
* `Database.hold`, `Database.release` — a caller keeps a buffer, and lets it go.

Design notes.  Every operation is a function from a database to an answer or an error, and a database:
what was done before an error stays done.  A buffer that is held when its cache is dropped lives on with
its holders; such buffers are kept under their serial numbers.  Running aggregates that iterators share
with those who feed them are kept here too, under numbers.
-/
import RelStore.Cache.PageCache
import RelStore.Catalog
import RelStore.Aggregate.Stat
import RelStore.Fallible

namespace RelStore

/-- The running statistics of each group, under the group's key; without grouping the key is none. -/
abbrev Groups := Assoc (Option Field) Stat

/-- A disk, the tables on it, and the pages of them that are in memory. -/
structure Database where
  disk : Disk := {}
  catalog : Catalog := {}
  cache : PageCache
  /-- Held buffers of caches that were dropped. -/
  leftBehind : Assoc Nat Buffer := {}
  /-- Shared running aggregates. -/
  running : Assoc Nat Groups := {}
  /-- The serial number of the next buffer. -/
  nextSerial : Nat := 0
  /-- The number of the next transaction. -/
  nextTxn : Nat := 0
deriving DecidableEq, Repr, Inhabited

/-- An operation on the database that can fail. -/
abbrev DbM (ε α : Type) := Fallible ε Database α

/-- Names a buffer: its page, and its serial number among the buffers of that page. -/
structure Handle where
  page : PageId
  serial : Nat
deriving DecidableEq, Repr, Inhabited

namespace Database

/-- A database with an empty disk, an empty catalog and an empty cache. -/
def ofPoolSize (n : Nat) : Database :=
  { cache := PageCache.ofSize n }

/-- A new transaction. -/
def begin {ε : Type} : DbM ε TxnId := do
  let db ← get
  set { db with nextTxn := db.nextTxn + 1 }
  pure ⟨db.nextTxn⟩

/-- Changes the cache. -/
def modifyCache {ε : Type} (change : PageCache → PageCache) : DbM ε Unit :=
  modify fun db => { db with cache := change db.cache }

/-- The file of a table, as registered. -/
def tableFile (id : TableId) : DbM StorageError HeapFile := do
  Fallible.ofExcept ((← get).catalog.file id)

/-- Reads a page from the disk, past the cache. -/
def readPage (f : HeapFile) (page : PageId) : DbM StorageError (Option Page) := do
  Fallible.ofExcept (f.readPage (← get).disk page)

/-- Writes a page to the disk, past the cache. -/
def writePage (f : HeapFile) (p : Page) : DbM StorageError Unit := do
  let disk ← Fallible.ofExcept (f.writePage (← get).disk p)
  modify fun db => { db with disk := disk }

/-- Writes the buffer in a frame to the disk, if it was changed; then it is clean. -/
def writeBack (frame : Nat) : DbM StorageError Unit := do
  match (← get).cache.bufferAt? frame with
  | none => pure ()
  | some b =>
    if b.dirty then
      let f ← tableFile b.page.id.table
      writePage f b.page
      modifyCache (·.modifyAt frame fun b => { b with dirty := false })

/-- A frame to reuse. -/
def findFrame : DbM StorageError Nat := do
  let (frame?, clock) := (← get).cache.clock.evict
  modifyCache fun c => { c with clock := clock }
  match frame? with
  | some frame => pure frame
  | none => throw .noFreeBuffer

/-- Loads a page that is not cached. The page that leaves the cache for it is written if it was changed. -/
def loadPage (page : PageId) : DbM StorageError Buffer := do
  let f ← tableFile page.table
  match ← readPage f page with
  | none => throw (.invalidPageReference page)
  | some p =>
    let frame ← findFrame
    writeBack frame
    let db ← get
    let b : Buffer := { serial := db.nextSerial, page := p }
    set { db with cache := db.cache.put frame b, nextSerial := db.nextSerial + 1 }
    pure b

/-- The buffer of a page. -/
def getPage (page : PageId) : DbM StorageError Buffer := do
  let db ← get
  match db.cache.touch page with
  | some (b, cache) =>
    set { db with cache := cache }
    pure b
  | none => loadPage page

/-- The first page of a table with an empty slot, among `count` pages from page `first` on. -/
def findRoom (table : TableId) (first : Nat) : (count : Nat) → DbM StorageError (Option PageId)
  | 0 => pure none
  | count + 1 => do
    let page : PageId := ⟨table, first⟩
    let b ← getPage page
    if 0 < b.page.emptySlots then pure (some page) else findRoom table (first + 1) count

/-- The page that the next row goes to: the first with an empty slot, or a new one at the end. -/
def roomFor (f : HeapFile) : DbM StorageError PageId := do
  let count := f.pageCount (← get).disk
  match ← findRoom f.id 0 count with
  | some page => pure page
  | none =>
    let page : PageId := ⟨f.id, count⟩
    let p ← Fallible.ofExcept (Page.empty page f.schema f.pageSize)
    writePage f p
    pure page

/-- Changes the page in a cached buffer. -/
def setPage {ε : Type} (page : PageId) (p : Page) : DbM ε Unit :=
  modifyCache (·.modify page fun b => { b with page := p })

/-- Stores a row in a heap file through the cache. -/
def fileInsert (f : HeapFile) (r : Row) : DbM StorageError PageId := do
  if r.schema.agrees f.schema then
    let page ← roomFor f
    let b ← getPage page
    let (_, p) ← Fallible.ofExcept (b.page.insert r)
    setPage page p
    pure page
  else
    throw (.mismatch f.schema r.schema)

/-- Removes a row from a heap file through the cache. -/
def fileDelete (f : HeapFile) (r : Row) : DbM StorageError PageId := do
  match r.record with
  | none => throw .missingRecordId
  | some record =>
    let page := record.page
    if page.table ≠ f.id ∨ f.pageCount (← get).disk ≤ page.number then
      throw (.invalidPageReference page)
    else
      let b ← getPage page
      let p ← Fallible.ofExcept (b.page.delete r)
      setPage page p
      pure page

/-- Stores a row in a table. -/
def insertRow (txn : TxnId) (table : TableId) (r : Row) : DbM StorageError Unit := do
  let f ← tableFile table
  let page ← fileInsert f r
  modifyCache (·.markChanged txn page)

/-- Removes the row that is stored at the row's record id. -/
def deleteRow (txn : TxnId) (r : Row) : DbM StorageError Unit := do
  match r.record with
  | none => throw .missingRecordId
  | some record =>
    let f ← tableFile record.page.table
    let page ← fileDelete f r
    modifyCache (·.markChanged txn page)

/-- Writes the given pages, as far as they are cached. -/
def writePages : List PageId → DbM StorageError Unit
  | [] => pure ()
  | page :: pages => do
    match (← get).cache.pageTable.get? page with
    | some frame => writeBack frame
    | none => pure ()
    writePages pages

/-- Writes every changed page and forgets who changed it. -/
def flush : DbM StorageError Unit := do
  writePages (← get).cache.pageTable.keys
  modifyCache fun c => { c with changed := {} }

/-- Writes the pages that a transaction changed and that are still cached. They are forgotten first. -/
def flushPages (txn : TxnId) : DbM StorageError Unit := do
  let pages := (← get).cache.changedBy txn
  modifyCache fun c => { c with changed := c.changed.erase txn }
  writePages pages

/-- Drops a cached page without writing it, unless it is held. -/
def discardPage {ε : Type} (page : PageId) : DbM ε Bool := do
  let db ← get
  let (dropped, cache) := db.cache.drop page
  set { db with cache := cache }
  pure dropped

/-- The buffer that a handle names. -/
def buffer? (db : Database) (h : Handle) : Option Buffer :=
  match db.cache.buffer? h.page with
  | some b => if b.serial = h.serial then some b else db.leftBehind.get? h.serial
  | none => db.leftBehind.get? h.serial

/-- Changes the buffer that a handle names. -/
def modifyBuffer (db : Database) (h : Handle) (change : Buffer → Buffer) : Database :=
  let elsewhere := match db.leftBehind.get? h.serial with
    | some b => { db with leftBehind := db.leftBehind.insert h.serial (change b) }
    | none => db
  match db.cache.buffer? h.page with
  | some b =>
    if b.serial = h.serial then { db with cache := db.cache.modify h.page change } else elsewhere
  | none => elsewhere

/-- A caller keeps a buffer. -/
def hold (db : Database) (h : Handle) : Database :=
  db.modifyBuffer h fun b => { b with holders := b.holders + 1 }

/-- A caller lets a buffer go. -/
def release (db : Database) (h : Handle) : Database :=
  db.modifyBuffer h fun b => { b with holders := b.holders - 1 }

/-- Starts an empty cache in the place of the old one. Nothing is written; held buffers are left behind. -/
def newCache (db : Database) (poolSize : Nat) : Database :=
  { db with
    cache := PageCache.ofSize poolSize
    leftBehind := db.cache.heldBuffers.foldl (fun m b => m.insert b.serial b) db.leftBehind }

end Database

end RelStore
