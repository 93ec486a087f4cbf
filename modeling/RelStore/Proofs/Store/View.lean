/-
The contents of a database, seen through its cache.

A page that is cached has the cells of its buffer, every other page those of its bytes on the disk.

* `Database.store` — the contents of all registered tables;
* `Database.Sound` — what holds between cache, catalog and disk as long as pages change only through the cache:
  a clean buffer is what the disk tells, up to long texts;
* `Database.Keeps` — what no operation of the cache touches;
* `Database.page_store` — what the store tells of a page is what the cache shows.

Design notes.  Nothing here assumes that all buffers are free: `Keeps` says that the held ones stay held.
-/
import RelStore.Proofs.Storage.PageFile
import RelStore.Proofs.Cache.Coherence
import RelStore.Proofs.Store.Contents
import RelStore.Database

namespace RelStore

open Page (Cells cut cutRow)

/-- The table ids of a catalog are those of the files, and every page of these has room for a row. -/
def Catalog.Proper (c : Catalog) : Prop :=
  ∀ (id : TableId) (t : Table), c.tables.get? id = some t →
    t.file.id = id ∧ slotCount t.file.schema t.file.pageSize ≠ 0

theorem Catalog.file_eq_ok_iff {c : Catalog} {id : TableId} {f : HeapFile} :
    c.file id = .ok f ↔ ∃ t, c.tables.get? id = some t ∧ t.file = f := by
  simp only [Catalog.file, Catalog.table]
  cases c.tables.get? id with
  | none => simp [Except.map]
  | some t => simp [Except.map]

theorem Catalog.Proper.id_of_file {c : Catalog} (hc : c.Proper) {id : TableId} {f : HeapFile}
    (h : c.file id = .ok f) : f.id = id := by
  obtain ⟨t, ht, rfl⟩ := Catalog.file_eq_ok_iff.mp h
  exact (hc id t ht).1

theorem Catalog.Proper.slotCount_ne_zero {c : Catalog} (hc : c.Proper) {id : TableId} {f : HeapFile}
    (h : c.file id = .ok f) : slotCount f.schema f.pageSize ≠ 0 := by
  obtain ⟨t, ht, rfl⟩ := Catalog.file_eq_ok_iff.mp h
  exact (hc id t ht).2

theorem Catalog.Proper.pageSize_pos {c : Catalog} (hc : c.Proper) {id : TableId} {f : HeapFile}
    (h : c.file id = .ok f) : 0 < f.pageSize :=
  pos_of_slotCount (hc.slotCount_ne_zero h)

/-- Registering a file that was opened keeps a catalog proper. -/
theorem Catalog.Proper.register {c : Catalog} (hc : c.Proper) {d d' : Disk} {text name : String}
    {schema : Schema} {pageSize : Nat} {f : HeapFile} {key : Option String}
    (hf : HeapFile.openAt d text schema pageSize = .ok (f, d')) : (c.register f name key).Proper := by
  have hroom : slotCount f.schema f.pageSize ≠ 0 := by
    unfold HeapFile.openAt at hf
    split at hf
    · cases hf
    · next hs =>
      split at hf <;> cases hf
      exact hs
  intro id t ht
  rw [get?_tables_register] at ht
  split at ht
  · next hid =>
    cases ht
    exact ⟨hid, hroom⟩
  · split at ht
    · cases ht
    · exact hc id t ht

namespace Database

variable {db db' : Database} {f : HeapFile} {page : PageId} {n : Nat} {b : Buffer}

/-- The cells of page `n` on the disk. -/
def diskCells (d : Disk) (f : HeapFile) (n : Nat) : Except StorageError Cells :=
  match f.readPage d ⟨f.id, n⟩ with
  | .ok (some p) => .ok p.cells
  | .ok none => .error (.invalidPageReference ⟨f.id, n⟩)
  | .error e => .error e

/-- The cells of page `n` as the cache shows them. -/
def pageCells (db : Database) (f : HeapFile) (n : Nat) : Except StorageError Cells :=
  match db.cache.buffer? ⟨f.id, n⟩ with
  | some b => .ok b.page.cells
  | none => diskCells db.disk f n

/-- The contents of a file. -/
def contents (db : Database) (f : HeapFile) : TableContents :=
  (List.range (f.pageCount db.disk)).map (db.pageCells f)

/-- The contents of all registered tables. -/
def store (db : Database) : Store := fun id =>
  match db.catalog.file id with
  | .ok f => db.contents f
  | .error _ => []

theorem store_eq (h : db.catalog.file f.id = .ok f) : db.store f.id = db.contents f := by
  rw [store, h]

theorem length_contents (db : Database) (f : HeapFile) :
    (db.contents f).length = f.pageCount db.disk := by
  rw [contents, List.length_map, List.length_range]

theorem length_store (h : db.catalog.file f.id = .ok f) : (db.store f.id).length = f.pageCount db.disk := by
  rw [store_eq h, length_contents]

theorem contents_getElem? (db : Database) (f : HeapFile) (n : Nat) :
    (db.contents f)[n]? = if n < f.pageCount db.disk then some (db.pageCells f n) else none := by
  rw [contents, List.getElem?_map]
  split
  · next h => rw [List.getElem?_range h]; rfl
  · next h => rw [List.getElem?_eq_none (by rw [List.length_range]; omega)]; rfl

/-- A buffer is backed by a page of the file: the disk has a page there, and the same one if the buffer is
clean. -/
structure Backed (d : Disk) (f : HeapFile) (b : Buffer) : Prop where
  wellFormed : b.page.WellFormed
  table : b.page.id.table = f.id
  schema : b.page.schema = f.schema
  size : b.page.size = f.pageSize
  read : ∃ q, f.readPage d b.page.id = .ok (some q) ∧ (b.dirty = false → q.cells = cut b.page.cells)

/-- Page table and frames tell the same, and every buffer is backed by a page of a registered table. -/
structure Sound (db : Database) : Prop where
  coherent : db.cache.Coherent
  proper : db.catalog.Proper
  backed : ∀ {page : PageId} {b : Buffer}, db.cache.buffer? page = some b →
    ∃ f, db.catalog.file page.table = .ok f ∧ Backed db.disk f b

/-- What the operations of the cache leave alone: the tables, the shared aggregates, the number of frames, and what is
held. -/
structure Keeps (db db' : Database) : Prop where
  catalog : db'.catalog = db.catalog
  running : db'.running = db.running
  frames : db'.cache.clock.frames.length = db.cache.clock.frames.length
  held : ∀ {page : PageId} {b' : Buffer}, db'.cache.buffer? page = some b' → b'.isHeld = true →
    ∃ b, db.cache.buffer? page = some b ∧ b.isHeld = true

theorem Keeps.registered (h : db.Keeps db') (hf : db.catalog.file f.id = .ok f) :
    db'.catalog.file f.id = .ok f := by
  rw [h.catalog]
  exact hf

theorem Keeps.refl (db : Database) : db.Keeps db :=
  ⟨rfl, rfl, rfl, fun hb hheld => ⟨_, hb, hheld⟩⟩

theorem Keeps.trans {db₁ db₂ db₃ : Database} (h : db₁.Keeps db₂) (h' : db₂.Keeps db₃) :
    db₁.Keeps db₃ := by
  refine ⟨h'.catalog.trans h.catalog, h'.running.trans h.running, h'.frames.trans h.frames, ?_⟩
  intro page b' hb hheld
  obtain ⟨b, hb, hheld⟩ := h'.held hb hheld
  exact h.held hb hheld

/-- A change of the cache that leaves the buffers alone. -/
theorem Keeps.of_buffer? (hcatalog : db'.catalog = db.catalog) (hrunning : db'.running = db.running)
    (hframes : db'.cache.clock.frames.length = db.cache.clock.frames.length)
    (hbuffer : ∀ page, db'.cache.buffer? page = db.cache.buffer? page) : db.Keeps db' :=
  ⟨hcatalog, hrunning, hframes, fun hb hheld => ⟨_, by rw [← hbuffer]; exact hb, hheld⟩⟩

theorem Sound.of_buffer? (h : db.Sound) (hcatalog : db'.catalog = db.catalog) (hdisk : db'.disk = db.disk)
    (hcoherent : db'.cache.Coherent) (hbuffer : ∀ page, db'.cache.buffer? page = db.cache.buffer? page) :
    db'.Sound := by
  refine ⟨hcoherent, by rw [hcatalog]; exact h.proper, ?_⟩
  intro page b hb
  rw [hbuffer] at hb
  rw [hcatalog, hdisk]
  exact h.backed hb

/-- The store depends on the buffers and on what the disk tells of each page. -/
theorem store_congr (hcatalog : db'.catalog = db.catalog)
    (hpages : ∀ {f : HeapFile}, db.catalog.file f.id = .ok f →
      f.pageCount db'.disk = f.pageCount db.disk ∧ ∀ n, db'.pageCells f n = db.pageCells f n)
    (hproper : db.catalog.Proper) : db'.store = db.store := by
  funext id
  cases hid : db.catalog.file id with
  | error e => rw [store, store, hcatalog, hid]
  | ok f =>
    obtain rfl := hproper.id_of_file hid
    obtain ⟨hcount, hcells⟩ := hpages hid
    rw [store_eq hid, store_eq (by rw [hcatalog]; exact hid), contents, contents, hcount]
    exact List.map_congr_left fun n _ => hcells n

/-- A change of the contents of one file. -/
theorem store_eq_put (hcatalog : db'.catalog = db.catalog) (hproper : db.catalog.Proper)
    (hf : db.catalog.file f.id = .ok f)
    (hother : ∀ {g : HeapFile}, db.catalog.file g.id = .ok g → g ≠ f →
      db'.contents g = db.contents g) :
    db'.store = db.store.put f.id (db'.contents f) := by
  funext id
  by_cases heq : id = f.id
  · subst heq
    rw [Store.put_self, store_eq (by rw [hcatalog]; exact hf)]
  · rw [Store.put_of_ne _ heq]
    cases hg : db.catalog.file id with
    | error e => rw [store, store, hcatalog, hg]
    | ok g =>
      obtain rfl := hproper.id_of_file hg
      rw [store_eq hg, store_eq (by rw [hcatalog]; exact hg)]
      exact hother hg fun hgf => heq (by rw [hgf])

/-- A change of one page. -/
theorem store_eq_onPage (hcatalog : db'.catalog = db.catalog) (hproper : db.catalog.Proper)
    (hf : db.catalog.file f.id = .ok f) {change : Cells → Cells}
    (hcount : ∀ g : HeapFile, g.pageCount db'.disk = g.pageCount db.disk)
    (hcells : ∀ (g : HeapFile) (m : Nat), db'.pageCells g m
      = if (⟨f.id, n⟩ : PageId) = ⟨g.id, m⟩ then (db.pageCells g m).map change else db.pageCells g m) :
    db'.store = db.store.put f.id ((db.store f.id).onPage n change) := by
  have hcontents : db'.contents f = (db.store f.id).onPage n change := by
    rw [store_eq hf]
    refine List.ext_getElem? fun m => ?_
    rw [TableContents.onPage, List.getElem?_modify, contents_getElem?, contents_getElem?, hcells, hcount]
    by_cases hm : n = m
    · subst hm
      split <;> simp
    · split <;> simp [hm]
  rw [← hcontents]
  refine store_eq_put hcatalog hproper hf fun {g} hg hne => ?_
  rw [Database.contents, Database.contents, hcount]
  refine List.map_congr_left fun m _ => ?_
  rw [hcells, if_neg fun hpage => hne ?_]
  have hgf : f.id = g.id := congrArg PageId.table hpage
  rw [← hgf, hf] at hg
  exact (Except.ok.inj hg).symm

/-- One more page. -/
theorem store_eq_append (hcatalog : db'.catalog = db.catalog) (hproper : db.catalog.Proper)
    (hf : db.catalog.file f.id = .ok f) {cells : Except StorageError Cells}
    (hcount : f.pageCount db'.disk = f.pageCount db.disk + 1)
    (hlast : db'.pageCells f (f.pageCount db.disk) = cells)
    (hother : ∀ {g : HeapFile}, db.catalog.file g.id = .ok g → g ≠ f → g.pageCount db'.disk = g.pageCount db.disk)
    (hold : ∀ {g : HeapFile} {m : Nat}, db.catalog.file g.id = .ok g →
      (⟨g.id, m⟩ : PageId) ≠ ⟨f.id, f.pageCount db.disk⟩ → db'.pageCells g m = db.pageCells g m) :
    db'.store = db.store.put f.id (db.store f.id ++ [cells]) := by
  have hcontents : db'.contents f = db.store f.id ++ [cells] := by
    rw [store_eq hf, Database.contents, Database.contents, hcount, List.range_succ, List.map_append,
      List.map_singleton, hlast]
    congr 1
    refine List.map_congr_left fun m hm => hold hf fun hpage => ?_
    have hnumber : m = f.pageCount db.disk := congrArg PageId.number hpage
    rw [List.mem_range] at hm
    omega
  rw [← hcontents]
  refine store_eq_put hcatalog hproper hf fun {g} hg hne => ?_
  rw [Database.contents, Database.contents, hother hg hne]
  refine List.map_congr_left fun m _ => hold hg fun hpage => hne ?_
  have hgf : g.id = f.id := congrArg PageId.table hpage
  rw [hgf, hf] at hg
  exact (Except.ok.inj hg).symm

theorem store_of_buffer? (hcatalog : db'.catalog = db.catalog) (hdisk : db'.disk = db.disk)
    (hbuffer : ∀ page, db'.cache.buffer? page = db.cache.buffer? page) : db'.store = db.store := by
  have hcells : ∀ f, db'.pageCells f = db.pageCells f := by
    intro f
    funext n
    rw [pageCells, pageCells, hbuffer, hdisk]
  funext id
  simp only [store, contents, hcatalog, hdisk, hcells]

theorem pageCells_of_buffer? (hb : db.cache.buffer? ⟨f.id, n⟩ = some b) :
    db.pageCells f n = .ok b.page.cells := by
  rw [pageCells, hb]

theorem pageCells_of_buffer?_eq_none (hb : db.cache.buffer? ⟨f.id, n⟩ = none) :
    db.pageCells f n = diskCells db.disk f n := by
  rw [pageCells, hb]

/-- The page of a buffer lies inside its file. -/
theorem Sound.place_le (h : db.Sound) (hf : db.catalog.file f.id = .ok f)
    (hb : db.cache.buffer? ⟨f.id, n⟩ = some b) :
    n < f.pageCount db.disk ∧ f.pageSize * n + f.pageSize ≤ (db.disk.contents f.path).length := by
  obtain ⟨f', hf', hbacked⟩ := h.backed hb
  rw [hf] at hf'
  cases hf'
  obtain ⟨q, hq, -⟩ := hbacked.read
  rw [PageCache.id_of_buffer? h.coherent hb] at hq
  have := HeapFile.place_le_of_readPage hq
  exact ⟨this.1, this.2.1⟩

/-- A page with cells lies inside its file as a whole. -/
theorem Sound.place_le_of_pageCells (h : db.Sound) (hf : db.catalog.file f.id = .ok f) {cells : Cells}
    (hcells : db.pageCells f n = .ok cells) :
    n < f.pageCount db.disk ∧ f.pageSize * n + f.pageSize ≤ (db.disk.contents f.path).length := by
  cases hb : db.cache.buffer? ⟨f.id, n⟩ with
  | some b => exact h.place_le hf hb
  | none =>
    rw [pageCells_of_buffer?_eq_none hb, diskCells] at hcells
    split at hcells
    · next q hq =>
      have := HeapFile.place_le_of_readPage hq
      exact ⟨this.1, this.2.1⟩
    · cases hcells
    · cases hcells

/-- The rows that the cache shows have the types of their table. -/
theorem Sound.types_of_pageCells (h : db.Sound) (hf : db.catalog.file f.id = .ok f) {cells : Cells}
    (hcells : db.pageCells f n = .ok cells) {fields : List Field} (hfields : some fields ∈ cells) :
    fields.map Field.type = f.schema.types := by
  cases hb : db.cache.buffer? ⟨f.id, n⟩ with
  | some b =>
    obtain ⟨f', hf', hbacked⟩ := h.backed hb
    rw [hf] at hf'
    cases hf'
    rw [pageCells, hb] at hcells
    cases hcells
    rw [← hbacked.schema]
    exact hbacked.wellFormed.types_of_mem_cells hfields
  -- a page of the disk has been decoded with the schema of the table
  | none =>
    rw [pageCells, hb] at hcells
    simp only [diskCells] at hcells
    split at hcells
    · next q hq =>
      cases hcells
      obtain ⟨-, -, hdecode, -⟩ := HeapFile.place_le_of_readPage hq
      obtain ⟨hw, -, hschema, -, -⟩ := Page.wellFormed_of_decode hdecode
      rw [← hschema]
      exact hw.types_of_mem_cells hfields
    · cases hcells
    · cases hcells

/-- What the store tells of a page is what the cache shows. -/
theorem page_store (h : db.Sound) (hf : db.catalog.file f.id = .ok f) (n : Nat) :
    db.store.page db.catalog ⟨f.id, n⟩ = db.pageCells f n := by
  rw [Store.page, hf, store_eq hf, contents_getElem?]
  by_cases hlt : n < f.pageCount db.disk
  · rw [if_pos hlt]
  · rw [if_neg hlt]
    cases hb : db.cache.buffer? ⟨f.id, n⟩ with
    -- no page behind the file is cached, and the disk refuses it
    | some b => exact absurd (h.place_le hf hb).1 hlt
    | none =>
      rw [pageCells_of_buffer?_eq_none hb, diskCells, HeapFile.readPage_eq, if_pos (by omega)]

/-- The store tells the cells of every buffer. -/
theorem Sound.page_of_buffer? (h : db.Sound) (hb : db.cache.buffer? page = some b) :
    db.store.page db.catalog page = .ok b.page.cells := by
  obtain ⟨f, hf, -⟩ := h.backed hb
  obtain ⟨table, n⟩ := page
  obtain rfl : f.id = table := h.proper.id_of_file hf
  rw [page_store h hf, pageCells_of_buffer? hb]

end Database

end RelStore
