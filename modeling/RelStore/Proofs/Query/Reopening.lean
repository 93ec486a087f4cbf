/-
What a new cache finds after a flush.

* `Page.placed` — the rows of a page by address, whatever their schemas;
* `Pool.Flushed` — every page of the disk has the rows that the cache showed, with long texts cut, and a cache that is
  started anew scans just these;
* `Pool.flushed_run` — so it is after every flush, whatever callers did before;
* `Pool.flushed_run_notes` — a note that was never written before the flush.

Design notes.  A page that was never written is on the disk too, without its rows, from the moment when it was
appended; so the pages of a table are the same before and after.
-/
import RelStore.Proofs.Store.Flushing
import RelStore.Proofs.Query.Plans

namespace RelStore

open Page (Cells cut cutRow)
open Database (Steady diskCells)
open TableContents (pageRows rowsFrom)

variable {f : HeapFile} {d : Disk} {n : Nat}

namespace Page

/-- The rows of a page: the address and the fields of each. -/
def placed (p : Page) : List (Option RecordId × List Field) :=
  p.rows.map fun r => (r.record, r.fields)

/-- A row at its address, with long texts cut. -/
def cutPlaced (row : Option RecordId × List Field) : Option RecordId × List Field :=
  (row.1, cutRow row.2)

/-- The rows of a page are told by its cells. -/
theorem WellFormed.placed_eq {p : Page} (h : p.WellFormed) :
    p.placed = (pageRows p.schema p.id p.cells).map fun r => (r.record, r.fields) := by
  rw [← h.map_withSchema_rows, List.map_map]
  rfl

/-- The rows in cells that are cut are cut. -/
theorem pageRows_cut (schema : Schema) (page : PageId) (cells : Cells) :
    (pageRows schema page (cut cells)).map (fun r => (r.record, r.fields))
      = ((pageRows schema page cells).map fun r => (r.record, r.fields)).map cutPlaced := by
  have hzip : (cut cells).zipIdx = cells.zipIdx.map fun p => (p.1.map cutRow, p.2) := by
    rw [cut, List.zipIdx_map]
    rfl
  rw [pageRows, pageRows, hzip, List.filterMap_map, List.map_filterMap, List.map_filterMap, List.map_filterMap]
  congr 1
  funext p
  obtain ⟨cell, i⟩ := p
  cases cell <;> rfl

/-- A page with the same cells, but for long texts that are cut, has the same rows, but for these texts. -/
theorem WellFormed.placed_of_cut {p q : Page} (hp : p.WellFormed) (hq : q.WellFormed) (hid : q.id = p.id)
    (hcells : q.cells = cut p.cells) : q.placed = p.placed.map cutPlaced := by
  have hschema : ∀ schema schema' : Schema,
      (pageRows schema q.id q.cells).map (fun r => (r.record, r.fields))
        = (pageRows schema' q.id q.cells).map fun r => (r.record, r.fields) := by
    intro schema schema'
    simp only [pageRows, List.map_filterMap, Option.map_map, Function.comp_def]
  rw [hp.placed_eq, hq.placed_eq, hschema _ p.schema, hcells, pageRows_cut, hid]

end Page

/-- The rows on the disk in page `n` of a file. -/
def HeapFile.imageRows (f : HeapFile) (d : Disk) (n : Nat) : List Row :=
  match f.readPage d ⟨f.id, n⟩ with
  | .ok (some q) => q.rows
  | _ => []

/-- The rows of pages that can all be read, page by page. -/
theorem TableContents.rowsFrom_range' {schema : Schema} {table : TableId} {pages : Nat → Except StorageError Cells}
    {rows : Nat → List Row} (count first : Nat)
    (h : ∀ k, first ≤ k → k < first + count →
      ∃ cells, pages k = .ok cells ∧ pageRows schema ⟨table, k⟩ cells = rows k) :
    rowsFrom schema table first ((List.range' first count).map pages) = (List.range' first count).flatMap rows := by
  induction count generalizing first with
  | zero => rfl
  | succ count ih =>
    obtain ⟨cells, hcells, hrows⟩ := h first (Nat.le_refl _) (by omega)
    rw [List.range'_succ, List.map_cons, List.flatMap_cons, hcells, rowsFrom, hrows,
      ih (first + 1) fun k hge hlt => h k (by omega) (by omega)]

namespace Database

variable {db : Database}

/-- A page that is not cached has no long texts, so a cut leaves its rows as they are on the disk. -/
theorem exists_placed_of_buffer?_eq_none {cells : Cells} {q : Page} (hmiss : db.cache.buffer? ⟨f.id, n⟩ = none)
    (hcells : db.pageCells f n = .ok cells) (hq : f.readPage d ⟨f.id, n⟩ = .ok (some q)) (hcut : q.cells = cut cells) :
    ∃ p, f.readPage db.disk ⟨f.id, n⟩ = .ok (some p) ∧ q.placed = p.placed := by
  have hfits := fits_of_buffer?_eq_none hmiss
  rw [hcells] at hfits
  have hcut' : cut cells = cells := Except.ok.inj hfits
  rw [pageCells_of_buffer?_eq_none hmiss] at hcells
  obtain ⟨p, hp, rfl⟩ := diskCells_eq_ok_iff.mp hcells
  obtain ⟨hw, hid, -⟩ := HeapFile.wellFormed_of_readPage hq
  obtain ⟨hw', hid', -⟩ := HeapFile.wellFormed_of_readPage hp
  refine ⟨p, hp, ?_⟩
  rw [hw'.placed_of_cut hw (hid.trans hid'.symm) hcut]
  exact (hw'.placed_of_cut hw' rfl hcut'.symm).symm

/-- A fresh cache shows what is on the disk. -/
theorem pageCells_newCache (db : Database) (m : Nat) (f : HeapFile) (k : Nat) :
    (db.newCache m).pageCells f k = diskCells db.disk f k :=
  pageCells_of_buffer?_eq_none (PageCache.buffer?_ofSize m _)

theorem store_newCache (hf : db.catalog.file f.id = .ok f) (m : Nat) :
    (db.newCache m).store f.id = (List.range (f.pageCount db.disk)).map (diskCells db.disk f) := by
  have hfile : (db.newCache m).catalog.file f.id = .ok f := hf
  rw [store_eq hfile, contents]
  exact List.map_congr_left fun k _ => pageCells_newCache db m f k

/-- Where all pages of the disk can be read, a fresh cache tells their rows. -/
theorem scanRows_newCache (hf : db.catalog.file f.id = .ok f)
    (hreadable : ∀ k < f.pageCount db.disk, ∃ q, f.readPage db.disk ⟨f.id, k⟩ = .ok (some q)) (m : Nat)
    (schema : Schema) :
    TableContents.fault ((db.newCache m).store f.id) = none
      ∧ Source.scanRows (db.newCache m).store f schema
        = (List.range (f.pageCount db.disk)).flatMap fun k => (f.imageRows db.disk k).map (·.withSchema schema) := by
  have hok : ∀ k < f.pageCount db.disk, ∃ cells, diskCells db.disk f k = .ok cells
      ∧ pageRows schema ⟨f.id, k⟩ cells = (f.imageRows db.disk k).map (·.withSchema schema) := by
    intro k hk
    obtain ⟨q, hq⟩ := hreadable k hk
    obtain ⟨hw, hid, -⟩ := HeapFile.wellFormed_of_readPage hq
    refine ⟨q.cells, diskCells_eq_ok_iff.mpr ⟨q, hq, rfl⟩, ?_⟩
    rw [HeapFile.imageRows, hq, ← hid]
    exact (hw.map_withSchema_rows schema).symm
  constructor
  · refine TableContents.fault_of_readable fun page hpage => ?_
    rw [store_newCache hf] at hpage
    obtain ⟨k, hk, rfl⟩ := List.mem_map.mp hpage
    obtain ⟨cells, hcells, -⟩ := hok k (List.mem_range.mp hk)
    exact ⟨cells, hcells⟩
  · rw [Source.scanRows, store_newCache hf, List.range_eq_range']
    exact TableContents.rowsFrom_range' _ _ fun k _ hk => hok k (by omega)

/-- So a scan through a fresh cache hands them out. -/
theorem readAll_newCache (hproper : db.catalog.Proper) (hf : db.catalog.file f.id = .ok f)
    (hreadable : ∀ k < f.pageCount db.disk, ∃ q, f.readPage db.disk ⟨f.id, k⟩ = .ok (some q)) {m : Nat} (hm : 0 < m)
    (target : ScanTarget) (schema : Schema) :
    ∃ k, ∀ fuel, k ≤ fuel → ((Plan.scan target f schema).readAll fuel (db.newCache m)).1 =
      if f.pageCount db.disk = 0 then .error (.storage .emptyFile)
      else .ok ((List.range (f.pageCount db.disk)).flatMap fun k =>
        (f.imageRows db.disk k).map (·.withSchema schema)) := by
  have hfresh : (db.newCache m).cache = PageCache.ofSize m := rfl
  have hfile : (db.newCache m).catalog.file f.id = .ok f := hf
  have hsteady := (ready_of_ofSize hm hfresh hproper).steady
  by_cases hcount : f.pageCount db.disk = 0
  · rw [if_pos hcount]
    have hpages : (db.newCache m).store f.id = [] := by
      rw [store_newCache hf, hcount]
      rfl
    have hrefuses : (Plan.scan target f schema).Refuses (Steady _ _) _ := Plan.refuses_scan target hfile hpages
    obtain ⟨k, hk⟩ := hrefuses.readAll
    refine ⟨k, fun fuel hfuel => ?_⟩
    obtain ⟨db', hread, -⟩ := hk fuel hfuel _ hsteady
    rw [hread]
  · rw [if_neg hcount]
    have hpages : (db.newCache m).store f.id ≠ [] := by
      rw [store_newCache hf, ne_eq, List.map_eq_nil_iff, List.range_eq_nil]
      exact hcount
    have hyields : (Plan.scan target f schema).Yields (Steady _ _) _ _ :=
      Plan.yields_scan target hfile (each_fits_of_ofSize hfresh f.id) hpages
    obtain ⟨k, hk⟩ := hyields.readAll
    obtain ⟨hfault, hrows⟩ := scanRows_newCache hf hreadable m schema
    refine ⟨k, fun fuel hfuel => ?_⟩
    obtain ⟨db', hread, -⟩ := hk fuel hfuel _ hsteady
    rw [hread, hfault, hrows]
    rfl

end Database

namespace Pool

variable {pool : Pool}

/-- What is found after a flush of a cache of `n` frames that showed certain rows before. -/
structure Flushed (n : Nat) (pool : Pool) (after : Database) : Prop where
  /-- No buffer is left to write. -/
  clean : ∀ i b, after.cache.bufferAt? i = some b → b.dirty = false
  /-- No page came or went. -/
  count : ∀ f, pool.db.catalog.file f.id = .ok f → f.pageCount after.disk = f.pageCount pool.db.disk
  /-- Every page of the disk has the rows that the cache gave before, at their addresses, with long texts cut. Only
  callers that hold all frames were not given a page, and then its rows are those that the disk had before. -/
  pages : ∀ f, pool.db.catalog.file f.id = .ok f → ∀ k < f.pageCount after.disk,
    ∃ q, f.readPage after.disk ⟨f.id, k⟩ = .ok (some q)
      ∧ ((∃ b, ((Database.getPage ⟨f.id, k⟩).outcome pool.db).1 = .ok b
            ∧ q.placed = b.page.placed.map Page.cutPlaced)
          ∨ ((Database.getPage ⟨f.id, k⟩).outcome pool.db).1 = .error .noFreeBuffer ∧ (n = 0 ∨ pool.held ≠ [])
            ∧ ∃ p, f.readPage pool.db.disk ⟨f.id, k⟩ = .ok (some p) ∧ q.placed = p.placed)
  /-- A new cache with a frame scans the rows of the disk. -/
  scan : ∀ f, pool.db.catalog.file f.id = .ok f → ∀ m, 0 < m → ∀ target schema,
    ∃ k, ∀ fuel, k ≤ fuel → ((Plan.scan target f schema).readAll fuel (after.newCache m)).1 =
      if f.pageCount after.disk = 0 then .error (.storage .emptyFile)
      else .ok ((List.range (f.pageCount after.disk)).flatMap fun k =>
        (f.imageRows after.disk k).map (·.withSchema schema))
  /-- Another flush changes no byte. -/
  again : (Database.flush.outcome after).1 = .ok () ∧ (Database.flush.outcome after).2.disk = after.disk

/-- A flush of a cache that fits to its disk. -/
theorem Sound.exists_flushed {c : Catalog} (h : pool.Sound n c) (hreadable : pool.db.store.Each Readable) :
    ∃ after, Database.flush.outcome pool.db = (.ok (), after) ∧ pool.Flushed n after := by
  obtain ⟨after, hflush, hsound, hcatalog, hstore, hclean⟩ := h.sound.exists_flush
  refine ⟨after, hflush, ?_⟩
  have hregistered : ∀ f, pool.db.catalog.file f.id = .ok f → after.catalog.file f.id = .ok f :=
    fun f hf => by rw [hcatalog]; exact hf
  have hcount : ∀ f, pool.db.catalog.file f.id = .ok f → f.pageCount after.disk = f.pageCount pool.db.disk := by
    intro f hf
    rw [← Database.length_contents, ← Database.length_contents, ← Database.store_eq (hregistered f hf),
      ← Database.store_eq hf, hstore]
  -- what the disk has is what the store told before, cut
  have hdisk : ∀ f, pool.db.catalog.file f.id = .ok f → ∀ k,
      diskCells after.disk f k = (pool.db.pageCells f k).map cut := by
    intro f hf k
    rw [hsound.diskCells_of_clean hclean (hregistered f hf), ← Database.page_store hsound (hregistered f hf),
      ← Database.page_store h.sound hf, hstore, hcatalog]
  have hpages : ∀ f, pool.db.catalog.file f.id = .ok f → ∀ k < f.pageCount after.disk,
      ∃ q cells, f.readPage after.disk ⟨f.id, k⟩ = .ok (some q) ∧ pool.db.pageCells f k = .ok cells
        ∧ q.cells = cut cells := by
    intro f hf k hk
    rw [hcount f hf] at hk
    obtain ⟨cells, hcells⟩ := (Database.each_store_iff h.sound.proper).mp hreadable f hf k hk
    have hcut := hdisk f hf k
    rw [hcells] at hcut
    obtain ⟨q, hq, hqcells⟩ := Database.diskCells_eq_ok_iff.mp hcut
    exact ⟨q, cells, hq, hcells, hqcells⟩
  constructor
  · exact hclean
  · exact hcount
  · intro f hf k hk
    obtain ⟨q, cells, hq, hcells, hcut⟩ := hpages f hf k hk
    obtain ⟨hw, hid, -⟩ := HeapFile.wellFormed_of_readPage hq
    refine ⟨q, hq, ?_⟩
    have hshown := Database.page_store h.sound hf k
    obtain ⟨r, db, hget, hsound', -, -, hanswer⟩ := h.sound.getPage ⟨f.id, k⟩
    rw [hget]
    cases hanswer with
    | @found b hb hb' =>
      rw [hshown, hcells] at hb'
      obtain ⟨f', -, hbacked⟩ := hsound'.backed hb
      have hidb := PageCache.id_of_buffer? hsound'.coherent hb
      refine .inl ⟨b, rfl, hbacked.wellFormed.placed_of_cut hw (hid.trans hidb.symm) ?_⟩
      rw [hcut, Except.ok.inj hb']
    | refused he =>
      rw [hshown, hcells] at he
      cases he
    | full hfull =>
      -- a page that is refused is not cached
      have hmiss : pool.db.cache.buffer? ⟨f.id, k⟩ = none := by
        by_contra hne
        obtain ⟨b, hb⟩ := Option.ne_none_iff_exists'.mp hne
        have hgiven := Database.getPage_of_buffer? h.sound.coherent hb
        rw [hget] at hgiven
        cases hgiven
      obtain ⟨p, hp, hplaced⟩ := Database.exists_placed_of_buffer?_eq_none hmiss hcells hq hcut
      exact .inr ⟨rfl, h.tended.of_full hfull, p, hp, hplaced⟩
  · intro f hf m hm target schema
    refine Database.readAll_newCache (by rw [hcatalog]; exact h.sound.proper) (hregistered f hf) ?_ hm target schema
    intro k hk
    obtain ⟨q, -, hq, -⟩ := hpages f hf k hk
    exact ⟨q, hq⟩
  · exact Database.flush_of_clean hclean

/-- Whatever callers did with a cache that started out empty over pages that can be read: a flush is never refused,
and afterwards the disk has the rows that the cache showed, for every cache that is started anew. -/
theorem flushed_run {start : Database} (hcache : start.cache = PageCache.ofSize n) (hproper : start.catalog.Proper)
    (hreadable : start.store.Each Readable) {calls : List PoolCall} (hcalls : ∀ call ∈ calls, call.Proper) :
    let pool := run calls ⟨start, []⟩
    ∃ after, Database.flush.outcome pool.db = (.ok (), after) ∧ pool.Flushed n after := by
  intro pool
  obtain ⟨hsound, hkept⟩ := sound_run (sound_ofSize hcache hproper) hcalls
  exact hsound.exists_flushed (hkept hreadable)

/-- Two notes are stored. The second one is dropped before it was written, the first one kept by a caller. -/
def keptNote : List PoolCall :=
  [.cache (CacheCall.note "first"), .cache (CacheCall.note "second"), .discard ⟨CacheCall.notesFile.id, 1⟩,
    .keep ⟨CacheCall.notesFile.id, 0⟩]

theorem flushed_run_notes :
    ∃ after, Database.flush.outcome (run keptNote ⟨CacheCall.notes 2, []⟩).db = (.ok (), after)
      ∧ (run keptNote ⟨CacheCall.notes 2, []⟩).Flushed 2 after :=
  flushed_run rfl (CacheCall.notes_proper 2) (CacheCall.notes_each_readable 2) (by decide)

end Pool

end RelStore
