/-
The page cache: a clock of buffers, and where each page is in it.

* `PageCache.buffer?` — the buffer of a cached page;
* `PageCache.touch` — the same, counted as a use;
* `PageCache.put` — a freshly loaded page in a frame, in the place of what was there;
* `PageCache.modify` — a change of the buffer of a cached page;
* `PageCache.drop` — a page leaves the cache without being written, unless somebody holds it.

The cache also remembers, for every transaction, the pages that it changed.

Design notes.  The page table and the frames tell the same twice, one from pages to frames, one from
frames to pages.  Everything here is about one cache and does not look at the disk.
-/
import RelStore.Cache.Clock
import RelStore.Assoc

namespace RelStore

/-- A transaction. -/
structure TxnId where
  number : Nat
deriving DecidableEq, Repr, Inhabited

/-- Buffers, the frame of each cached page, and the pages that each transaction changed. -/
structure PageCache where
  clock : Clock
  pageTable : Assoc PageId Nat := {}
  changed : Assoc TxnId (List PageId) := {}
deriving DecidableEq, Repr, Inhabited

namespace PageCache

/-- An empty cache with the given number of frames. -/
def ofSize (n : Nat) : PageCache :=
  { clock := Clock.ofSize n }

/-- Whether the page is cached. -/
def isCached (c : PageCache) (page : PageId) : Bool :=
  c.pageTable.contains page

/-- The buffer in a frame. -/
def bufferAt? (c : PageCache) (frame : Nat) : Option Buffer :=
  match c.clock.frame? frame with
  | some f => f.buffer
  | none => none

/-- The buffer of a cached page. -/
def buffer? (c : PageCache) (page : PageId) : Option Buffer :=
  match c.pageTable.get? page with
  | some frame => c.bufferAt? frame
  | none => none

/-- Changes the frame at a place. -/
def modifyFrame (c : PageCache) (frame : Nat) (change : Frame → Frame) : PageCache :=
  match c.clock.frame? frame with
  | some f => { c with clock := c.clock.setFrame frame (change f) }
  | none => c

/-- Changes the buffer in a frame, if there is one. -/
def modifyAt (c : PageCache) (frame : Nat) (change : Buffer → Buffer) : PageCache :=
  c.modifyFrame frame fun f => { f with buffer := f.buffer.map change }

/-- Changes the buffer of a cached page. -/
def modify (c : PageCache) (page : PageId) (change : Buffer → Buffer) : PageCache :=
  match c.pageTable.get? page with
  | some frame => c.modifyAt frame change
  | none => c

/-- The buffer of a cached page, and the cache after counting one more use of it. -/
def touch (c : PageCache) (page : PageId) : Option (Buffer × PageCache) :=
  match c.pageTable.get? page with
  | some frame =>
    match c.bufferAt? frame with
    | some b => some (b, c.modifyFrame frame fun f => { f with usage := f.usage + 1 })
    | none => none
  | none => none

/-- Puts a freshly loaded buffer into a frame, used once. The page that was there is cached no more. -/
def put (c : PageCache) (frame : Nat) (b : Buffer) : PageCache :=
  let pageTable := match c.bufferAt? frame with
    | some old => c.pageTable.erase old.page.id
    | none => c.pageTable
  { c with
    clock := c.clock.setFrame frame ⟨1, some b⟩
    pageTable := pageTable.insert b.page.id frame }

/-- Drops a cached page that nobody holds. -/
def drop (c : PageCache) (page : PageId) : Bool × PageCache :=
  match c.pageTable.get? page with
  | none => (false, c)
  | some frame =>
    match c.clock.frame? frame with
    | none => (false, c)
    | some f =>
      if f.isHeld then (false, c)
      else (true, { c with
        clock := c.clock.setFrame frame ⟨0, none⟩
        pageTable := c.pageTable.erase page })

/-- The pages that a transaction changed. -/
def changedBy (c : PageCache) (txn : TxnId) : List PageId :=
  (c.changed.get? txn).getD []

/-- Marks a cached page as changed by a transaction. -/
def markChanged (c : PageCache) (txn : TxnId) (page : PageId) : PageCache :=
  let pages := c.changedBy txn
  let pages := if pages.contains page then pages else pages ++ [page]
  { c.modify page (fun b => { b with dirty := true }) with changed := c.changed.insert txn pages }

/-- The buffers that callers hold. -/
def heldBuffers (c : PageCache) : List Buffer :=
  (c.clock.frames.filterMap Frame.buffer).filter Buffer.isHeld

end PageCache

end RelStore
