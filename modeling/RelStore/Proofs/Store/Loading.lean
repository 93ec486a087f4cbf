/-
Loading pages, as the store shows it.

A page that is asked for comes into the cache, and another one may leave it.

* `Database.Sound.writeBack` — writing a buffer to the disk is never refused, and does not show;
* `Database.Sound.loadPage`, `Database.Sound.getPage` — the buffer has the cells that the store tells, and the
  page that left had at most its long texts cut;
* `Database.Idle` — a cache with a frame and without held buffers, where a frame is always found.

Design notes.  Errors are told as exactly as answers: a page is refused for the reason that the store gives, or
because callers hold all frames.
-/
import RelStore.Proofs.Store.View

namespace RelStore

open Page (Cells cut)
open Fallible (follow)

namespace Database

variable {db db' : Database} {f : HeapFile} {page : PageId} {p : Page} {b : Buffer} {frame n : Nat}

/-! ### The disk below the cache -/

theorem diskCells_eq_ok_iff {d : Disk} {cells : Cells} :
    diskCells d f n = .ok cells ↔ ∃ q, f.readPage d ⟨f.id, n⟩ = .ok (some q) ∧ q.cells = cells := by
  rw [diskCells]
  split
  · next q hq => simp [hq]
  · next hq => simp [hq]
  · next e he => simp [he]

/-- A page that is not cached has texts within the limit. -/
theorem fits_of_buffer?_eq_none (h : db.cache.buffer? ⟨f.id, n⟩ = none) : Fits (db.pageCells f n) := by
  rw [pageCells_of_buffer?_eq_none h]
  cases hcells : diskCells db.disk f n with
  | error e => rfl
  | ok cells =>
    obtain ⟨q, hq, rfl⟩ := diskCells_eq_ok_iff.mp hcells
    obtain ⟨-, -, hdecode, -⟩ := HeapFile.place_le_of_readPage hq
    obtain ⟨-, -, -, -, hcut⟩ := Page.wellFormed_of_decode hdecode
    exact congrArg Except.ok hcut

theorem diskCells_congr {d d' : Disk} (h : f.readPage d' ⟨f.id, n⟩ = f.readPage d ⟨f.id, n⟩) :
    diskCells d' f n = diskCells d f n := by
  rw [diskCells, diskCells, h]

/-- Two registered files have different paths, because the path is the id. -/
theorem path_ne_of_registered {g : HeapFile} (hf : db.catalog.file f.id = .ok f) (hg : db.catalog.file g.id = .ok g)
    (hne : g ≠ f) : g.path ≠ f.path := by
  intro hpath
  have hid : g.id = f.id := congrArg TableId.file hpath
  rw [hid, hf] at hg
  exact hne (Except.ok.inj hg).symm

/-- Writing a page of a registered file, inside it or right at its end, touches no other page. -/
theorem exists_writePage (hproper : db.catalog.Proper) (hf : db.catalog.file f.id = .ok f)
    (hw : p.WellFormed) (htable : p.id.table = f.id) (hschema : p.schema = f.schema)
    (hsize : p.size = f.pageSize)
    (hplace : f.pageSize * p.id.number ≤ (db.disk.contents f.path).length) :
    ∃ d, f.writePage db.disk p = .ok d ∧ f.readPage d p.id = .ok (some p.stored)
      ∧ f.pageCount d = max (f.pageCount db.disk) (p.id.number + 1)
      ∧ ∀ {g : HeapFile}, db.catalog.file g.id = .ok g →
        (g ≠ f → g.pageCount d = g.pageCount db.disk)
          ∧ ∀ m, (⟨g.id, m⟩ : PageId) ≠ p.id →
            g.readPage d ⟨g.id, m⟩ = g.readPage db.disk ⟨g.id, m⟩ := by
  have hpos := hproper.pageSize_pos hf
  obtain ⟨d, hwrite, hown, hother⟩ := HeapFile.writePage_eq hsize hplace
  refine ⟨d, hwrite, HeapFile.readPage_of_writePage hpos hsize hplace hown hw hschema htable,
    HeapFile.pageCount_of_writePage hpos hsize hplace hown, ?_⟩
  intro g hg
  by_cases heq : g = f
  · subst heq
    refine ⟨fun h => absurd rfl h, fun m hm => ?_⟩
    refine HeapFile.readPage_of_writePage_of_ne hpos hsize hplace hown fun hnumber => hm ?_
    rw [hnumber, ← htable]
  · have hpath : g.path ≠ f.path := path_ne_of_registered hf hg heq
    exact ⟨fun _ => HeapFile.pageCount_congr (hother _ hpath),
      fun m _ => HeapFile.readPage_congr (hother _ hpath) m⟩

theorem Backed.of_readPage {d d' : Disk} (h : Backed d f b)
    (hread : f.readPage d' b.page.id = f.readPage d b.page.id) : Backed d' f b :=
  { h with read := by rw [hread]; exact h.read }

/-! ### What is shown -/

/-- All pages are shown as before, but for some whose long texts are cut. -/
structure CutsTo (db db' : Database) : Prop where
  catalog : db'.catalog = db.catalog
  count : ∀ {g : HeapFile}, db.catalog.file g.id = .ok g → g.pageCount db'.disk = g.pageCount db.disk
  cells : ∀ {g : HeapFile}, db.catalog.file g.id = .ok g → ∀ n,
    db'.pageCells g n = db.pageCells g n ∨ db'.pageCells g n = (db.pageCells g n).map cut

theorem CutsTo.of_buffer? (hcatalog : db'.catalog = db.catalog) (hdisk : db'.disk = db.disk)
    (hbuffer : ∀ page, db'.cache.buffer? page = db.cache.buffer? page) : db.CutsTo db' :=
  ⟨hcatalog, fun _ => by rw [hdisk], fun _ n => .inl (by rw [pageCells, pageCells, hbuffer, hdisk])⟩

theorem CutsTo.registered (h : db.CutsTo db') (hf : db.catalog.file f.id = .ok f) :
    db'.catalog.file f.id = .ok f := by
  rw [h.catalog]
  exact hf

theorem CutsTo.trans {db₁ db₂ db₃ : Database} (h : db₁.CutsTo db₂) (h' : db₂.CutsTo db₃) :
    db₁.CutsTo db₃ := by
  refine ⟨h'.catalog.trans h.catalog, fun hg => (h'.count (h.registered hg)).trans (h.count hg), ?_⟩
  intro g hg n
  -- a page that is cut twice is cut once
  rcases h.cells hg n with h1 | h1 <;> rcases h'.cells (h.registered hg) n with h2 | h2
  · exact .inl (h2.trans h1)
  · exact .inr (by rw [h2, h1])
  · exact .inr (by rw [h2, h1])
  · rw [h2, h1]
    cases db₁.pageCells g n with
    | error e => exact .inr rfl
    | ok cells => exact .inr (congrArg Except.ok (Page.cut_cut cells))

theorem CutsTo.store (h : db.CutsTo db') (hproper : db.catalog.Proper) : db.store.CutTo db'.store := by
  intro id
  cases hid : db.catalog.file id with
  | error e =>
    rw [Database.store, Database.store, h.catalog, hid]
    exact TableContents.CutTo.refl _
  | ok f =>
    obtain rfl := hproper.id_of_file hid
    rw [store_eq hid, store_eq (h.registered hid)]
    refine ⟨by rw [length_contents, length_contents, h.count hid], fun n => ?_⟩
    rw [contents_getElem?, contents_getElem?, h.count hid]
    split
    · rcases h.cells hid n with hcells | hcells
      · exact .inl (by rw [hcells])
      · exact .inr (by rw [hcells, Option.map_some])
    · exact .inl rfl

/-! ### Writing a buffer back -/

/-- The buffer as it is when it was written. -/
def cleaned (b : Buffer) : Buffer :=
  { b with dirty := false }

theorem cleaned_eq_self (h : b.dirty = false) : cleaned b = b := by
  obtain ⟨serial, page, dirty, holders⟩ := b
  cases h
  rfl

theorem outcome_writeBack (frame : Nat) (db : Database) :
    (writeBack frame).outcome db =
      match db.cache.bufferAt? frame with
      | none => (.ok (), db)
      | some b =>
        if b.dirty then
          follow (db.catalog.file b.page.id.table, db) fun f db =>
            follow (f.writePage db.disk b.page, db) fun d db =>
              (.ok (), { db with disk := d, cache := db.cache.modifyAt frame cleaned })
        else (.ok (), db) := by
  unfold writeBack
  rw [Fallible.outcome_bind, Fallible.outcome_get, Fallible.follow_ok]
  cases db.cache.bufferAt? frame with
  | none => rfl
  | some b =>
    simp only [Fallible.outcome_ite, Fallible.outcome_bind, tableFile, writePage, modifyCache,
      Fallible.outcome_get, Fallible.follow_ok, Fallible.outcome_ofExcept, Fallible.outcome_pure,
      Fallible.outcome_modify]
    split
    · cases db.catalog.file b.page.id.table with
      | error e => rfl
      | ok f =>
        simp only [Fallible.follow_ok]
        cases f.writePage db.disk b.page <;> rfl
    · rfl

/-- What the writing of a buffer leaves behind: the buffer is clean, and nothing else shows it. -/
structure WrittenBack (frame : Nat) (db db' : Database) : Prop where
  sound : db'.Sound
  keeps : db.Keeps db'
  serial : db'.nextSerial = db.nextSerial
  pageTable : db'.cache.pageTable = db.cache.pageTable
  bufferAt : ∀ i, db'.cache.bufferAt? i
    = if frame = i then (db.cache.bufferAt? i).map cleaned else db.cache.bufferAt? i
  count : ∀ {g : HeapFile}, db.catalog.file g.id = .ok g → g.pageCount db'.disk = g.pageCount db.disk
  cells : ∀ {g : HeapFile}, db.catalog.file g.id = .ok g → ∀ n, db'.pageCells g n = db.pageCells g n

/-- A buffer that is clean needs no writing. -/
theorem Sound.writtenBack_of_clean (h : db.Sound)
    (hclean : ∀ b, db.cache.bufferAt? frame = some b → b.dirty = false) : WrittenBack frame db db := by
  refine ⟨h, Keeps.refl db, rfl, rfl, fun i => ?_, fun _ => rfl, fun _ _ => rfl⟩
  split
  · next heq =>
    subst heq
    cases hb : db.cache.bufferAt? frame with
    | none => rfl
    | some b => rw [Option.map_some, cleaned_eq_self (hclean b hb)]
  · rfl

/-- The page of a buffer is written over what the disk has in its place. -/
theorem Sound.writtenBack_of_writePage (h : db.Sound) (hb : db.cache.bufferAt? frame = some b)
    (hf : db.catalog.file b.page.id.table = .ok f) :
    ∃ d, f.writePage db.disk b.page = .ok d
      ∧ WrittenBack frame db { db with disk := d, cache := db.cache.modifyAt frame cleaned } := by
  have hbuffer : db.cache.buffer? b.page.id = some b :=
    (PageCache.buffer?_eq_some_iff h.coherent).mpr ⟨frame, hb, rfl⟩
  obtain ⟨f', hf', hbacked⟩ := h.backed hbuffer
  rw [hf] at hf'
  cases hf'
  have hid : f.id = b.page.id.table := h.proper.id_of_file hf
  have hpage : b.page.id = ⟨f.id, b.page.id.number⟩ := by rw [hid]
  obtain ⟨hlt, hplace⟩ := h.place_le (by rw [hid]; exact hf) (hpage ▸ hbuffer)
  obtain ⟨d, hwrite, hread, hcount, hother⟩ := exists_writePage h.proper (by rw [hid]; exact hf)
    hbacked.wellFormed hid.symm hbacked.schema hbacked.size (by omega)
  have hbuffers : ∀ page, (db.cache.modifyAt frame cleaned).buffer? page
      = if b.page.id = page then some (cleaned b) else db.cache.buffer? page :=
    PageCache.buffer?_modifyAt h.coherent hb
  refine ⟨d, hwrite, ⟨h.coherent.modifyAt fun _ _ => rfl, h.proper, ?_⟩,
    ⟨rfl, rfl, (PageCache.clock_modifyAt ..).2, ?_⟩, rfl, PageCache.pageTable_modifyFrame ..,
    fun i => PageCache.bufferAt?_modifyAt _ frame i _, ?_, ?_⟩
  · intro ⟨table, m⟩ b' hb'
    rw [hbuffers] at hb'
    split at hb'
    · next heq =>
      -- the written buffer is backed by what was written
      cases hb'
      rw [← heq]
      exact ⟨f, hf, hbacked.wellFormed, hid.symm, hbacked.schema, hbacked.size, b.page.stored,
        hread, fun _ => Page.cells_stored _⟩
    -- every other buffer is still backed, as the write touched no other page
    · next hne =>
      obtain ⟨g, hg, hbacked'⟩ := h.backed hb'
      obtain rfl : g.id = table := h.proper.id_of_file hg
      refine ⟨g, hg, hbacked'.of_readPage ?_⟩
      rw [PageCache.id_of_buffer? h.coherent hb']
      exact (hother hg).2 m (Ne.symm hne)
  · intro page b' hb' hheld
    rw [hbuffers] at hb'
    split at hb'
    · next heq =>
      cases hb'
      exact ⟨b, by rw [← heq]; exact hbuffer, hheld⟩
    · exact ⟨b', hb', hheld⟩
  · intro g hg
    by_cases heq : g = f
    · subst heq
      rw [hcount, Nat.max_eq_left (by omega)]
    · exact (hother hg).1 heq
  · intro g hg m
    rw [pageCells, pageCells, hbuffers]
    by_cases heq : b.page.id = ⟨g.id, m⟩
    · rw [if_pos heq, ← heq, hbuffer]
      rfl
    · rw [if_neg heq]
      cases db.cache.buffer? ⟨g.id, m⟩ with
      | some b' => rfl
      | none => exact diskCells_congr ((hother hg).2 m (Ne.symm heq))

/-- Writing a buffer back is never refused. -/
theorem Sound.writeBack (h : db.Sound) (frame : Nat) :
    ∃ db', (Database.writeBack frame).outcome db = (.ok (), db') ∧ WrittenBack frame db db' := by
  rw [outcome_writeBack]
  cases hb : db.cache.bufferAt? frame with
  | none => exact ⟨db, rfl, h.writtenBack_of_clean fun b hb' => by rw [hb] at hb'; cases hb'⟩
  | some b =>
    cases hdirty : b.dirty with
    | false =>
      simp only [Bool.false_eq_true, if_false, hdirty]
      refine ⟨db, rfl, h.writtenBack_of_clean fun b' hb' => ?_⟩
      rw [hb] at hb'
      cases hb'
      exact hdirty
    | true =>
      have hbuffer : db.cache.buffer? b.page.id = some b :=
        (PageCache.buffer?_eq_some_iff h.coherent).mpr ⟨frame, hb, rfl⟩
      obtain ⟨f, hf, -⟩ := h.backed hbuffer
      obtain ⟨d, hwrite, hwritten⟩ := h.writtenBack_of_writePage hb hf
      simp only [if_true, hdirty, hf, Fallible.follow_ok, hwrite]
      exact ⟨_, rfl, hwritten⟩

theorem WrittenBack.buffer? (h : WrittenBack frame db db') (page : PageId) :
    db'.cache.buffer? page = db.cache.buffer? page
      ∨ db'.cache.buffer? page = (db.cache.buffer? page).map cleaned := by
  rw [PageCache.buffer?, PageCache.buffer?, h.pageTable]
  split
  · rw [h.bufferAt]
    split
    · exact .inr rfl
    · exact .inl rfl
  · exact .inl rfl

theorem WrittenBack.buffer?_eq_none (h : WrittenBack frame db db') (hb : db.cache.buffer? page = none) :
    db'.cache.buffer? page = none := by
  rcases h.buffer? page with hsame | hsame
  · rw [hsame, hb]
  · rw [hsame, hb]
    rfl

theorem WrittenBack.clean (h : WrittenBack frame db db') (hb : db'.cache.bufferAt? frame = some b) :
    b.dirty = false := by
  rw [h.bufferAt, if_pos rfl] at hb
  obtain ⟨b', -, rfl⟩ := Option.map_eq_some_iff.mp hb
  rfl

theorem WrittenBack.cutsTo (h : WrittenBack frame db db') : db.CutsTo db' :=
  ⟨h.keeps.catalog, h.count, fun hg n => .inl (h.cells hg n)⟩

theorem WrittenBack.store (h : WrittenBack frame db db') (hproper : db.catalog.Proper) :
    db'.store = db.store :=
  store_congr h.keeps.catalog (fun hg => ⟨h.count hg, h.cells hg⟩) hproper

/-! ### A page in the place of another -/

/-- When a page that the disk has takes the place of a clean buffer, every page is shown as before, but for the one
that stood there: its texts may be cut. -/
theorem Sound.pageCells_put (h : db.Sound) (hframe : frame < db.cache.clock.frames.length)
    (hclean : ∀ old, db.cache.bufferAt? frame = some old → old.dirty = false)
    (hf : db.catalog.file b.page.id.table = .ok f) (hnew : db.cache.buffer? b.page.id = none)
    (hcells : diskCells db.disk f b.page.id.number = .ok b.page.cells) {g : HeapFile}
    (hg : db.catalog.file g.id = .ok g) (n : Nat) :
    let db' := { db with cache := db.cache.put frame b }
    db'.pageCells g n = db.pageCells g n ∨ db'.pageCells g n = (db.pageCells g n).map cut := by
  intro db'
  rw [pageCells, pageCells, PageCache.buffer?_put h.coherent hframe]
  by_cases heq : b.page.id = ⟨g.id, n⟩
  · -- the new page: the disk showed it so far
    have hfile : g = f := by
      rw [heq, hg] at hf
      exact Except.ok.inj hf
    rw [heq] at hnew
    rw [if_pos heq, hnew, hfile, show n = b.page.id.number by rw [heq], hcells]
    exact .inl rfl
  · rw [if_neg heq]
    by_cases hvictim : (db.cache.bufferAt? frame).map (·.page.id) = some ⟨g.id, n⟩
    · -- the page that stood in the frame: its buffer was clean, so the disk has its cells, up to long texts
      rw [if_pos hvictim]
      obtain ⟨old, hat, hid⟩ := Option.map_eq_some_iff.mp hvictim
      have hwas : db.cache.buffer? ⟨g.id, n⟩ = some old :=
        (PageCache.buffer?_eq_some_iff h.coherent).mpr ⟨frame, hat, hid⟩
      obtain ⟨g', hg', hback⟩ := h.backed hwas
      rw [hg] at hg'
      cases hg'
      obtain ⟨q, hq, hcut⟩ := hback.read
      rw [hid] at hq
      rw [hwas]
      exact .inr (diskCells_eq_ok_iff.mpr ⟨q, hq, hcut (hclean old hat)⟩)
    · rw [if_neg hvictim]
      exact .inl rfl

/-- A page that the disk has comes into a frame whose buffer is clean. The page that stood there is shown by the
disk from now on. -/
theorem Sound.put (h : db.Sound) (serial : Nat) (hframe : frame < db.cache.clock.frames.length)
    (hclean : ∀ old, db.cache.bufferAt? frame = some old → old.dirty = false)
    (hf : db.catalog.file b.page.id.table = .ok f) (hnew : db.cache.buffer? b.page.id = none)
    (hbacked : Backed db.disk f b) (hcells : diskCells db.disk f b.page.id.number = .ok b.page.cells)
    (hfree : b.isHeld = false) :
    let db' := { db with cache := db.cache.put frame b, nextSerial := serial }
    db'.Sound ∧ db.Keeps db' ∧ db.CutsTo db' ∧ db'.cache.buffer? b.page.id = some b := by
  intro db'
  have hbuffers := PageCache.buffer?_put h.coherent (b := b) hframe
  -- what is cached afterwards is the new buffer or was cached before
  have hold : ∀ {page : PageId} {b' : Buffer}, db'.cache.buffer? page = some b' →
      b.page.id = page ∧ b' = b ∨ db.cache.buffer? page = some b' := by
    intro page b' hb'
    rw [hbuffers] at hb'
    split at hb'
    · next heq => exact .inl ⟨heq, (Option.some.inj hb').symm⟩
    · split at hb'
      · cases hb'
      · exact .inr hb'
  refine ⟨⟨h.coherent.put hframe hnew, h.proper, ?_⟩, ⟨rfl, rfl, List.length_set, ?_⟩,
    ⟨rfl, fun _ => rfl, ?_⟩, by rw [hbuffers, if_pos rfl]⟩
  · intro page b' hb'
    rcases hold hb' with ⟨rfl, rfl⟩ | hb'
    · exact ⟨f, hf, hbacked⟩
    · exact h.backed hb'
  · intro page b' hb' hheld
    rcases hold hb' with ⟨-, rfl⟩ | hb'
    · rw [hfree] at hheld
      cases hheld
    · exact ⟨b', hb', hheld⟩
  · intro g hg n
    exact h.pageCells_put hframe hclean hf hnew hcells hg n

/-! ### Asking for a page -/

/-- Callers hold the buffers of all frames. -/
def Full (db : Database) : Prop :=
  ∀ i < db.cache.clock.frames.length, ∃ b, db.cache.bufferAt? i = some b ∧ b.isHeld = true

/-- There is a frame, and callers hold no buffer. -/
def Idle (db : Database) : Prop :=
  0 < db.cache.clock.frames.length
    ∧ ∀ page b, db.cache.buffer? page = some b → b.isHeld = false

/-- What is answered to somebody who asks for a page. -/
inductive Answers (page : PageId) (db db' : Database) : Except StorageError Buffer → Prop
  /-- The buffer, with the cells that the store tells. -/
  | found {b : Buffer} (hb : db'.cache.buffer? page = some b)
      (hcells : db.store.page db.catalog page = .ok b.page.cells) : Answers page db db' (.ok b)
  /-- The store cannot show the page. -/
  | refused {e : StorageError} (he : db.store.page db.catalog page = .error e) :
      Answers page db db' (.error e)
  /-- There is no frame for the page. -/
  | full (hfull : db.Full) : Answers page db db' (.error .noFreeBuffer)

theorem Idle.not_full (h : db.Idle) (hsound : db.Sound) : ¬ db.Full := by
  intro hfull
  obtain ⟨b, hb, hheld⟩ := hfull 0 h.1
  have hfree := h.2 b.page.id b ((PageCache.buffer?_eq_some_iff hsound.coherent).mpr ⟨0, hb, rfl⟩)
  rw [hfree] at hheld
  cases hheld

theorem Idle.of_keeps (h : db.Idle) (hkeeps : db.Keeps db') : db'.Idle := by
  refine ⟨by rw [hkeeps.frames]; exact h.1, fun page b hb => ?_⟩
  rw [Bool.eq_false_iff]
  intro hheld
  obtain ⟨b', hb', hheld'⟩ := hkeeps.held hb hheld
  rw [h.2 page b' hb'] at hheld'
  cases hheld'

theorem outcome_findFrame (db : Database) :
    findFrame.outcome db =
      (match db.cache.clock.evict.1 with
        | some frame => .ok frame
        | none => .error .noFreeBuffer,
        { db with cache := { db.cache with clock := db.cache.clock.evict.2 } }) := by
  simp only [findFrame, modifyCache, Fallible.outcome_bind, Fallible.outcome_get, Fallible.follow_ok,
    Fallible.outcome_modify]
  cases db.cache.clock.evict.1 <;> rfl

theorem outcome_loadPage (page : PageId) (db : Database) :
    (loadPage page).outcome db =
      follow (db.catalog.file page.table, db) fun f db =>
        match f.readPage db.disk page with
        | .error e => (.error e, db)
        | .ok none => (.error (.invalidPageReference page), db)
        | .ok (some p) =>
          follow (findFrame.outcome db) fun frame db =>
            follow ((Database.writeBack frame).outcome db) fun _ db =>
              (.ok { serial := db.nextSerial, page := p },
                { db with
                  cache := db.cache.put frame { serial := db.nextSerial, page := p }
                  nextSerial := db.nextSerial + 1 }) := by
  simp only [loadPage, tableFile, readPage, Fallible.outcome_bind, Fallible.outcome_get,
    Fallible.follow_ok, Fallible.outcome_ofExcept]
  congr 1
  funext f db
  rcases f.readPage db.disk page with e | _ | p
  · rfl
  · rfl
  · simp only [Fallible.follow_ok, Fallible.outcome_bind, Fallible.outcome_get, Fallible.outcome_set,
      Fallible.outcome_pure]

/-- The clock finds a frame, or callers hold all frames. -/
theorem Sound.evict (h : db.Sound) :
    (∃ frame, db.cache.clock.evict.1 = some frame ∧ frame < db.cache.clock.frames.length)
      ∨ db.cache.clock.evict.1 = none ∧ db.Full := by
  cases hfound : db.cache.clock.evict.1 with
  | some frame =>
    obtain ⟨f, hf, -⟩ := Clock.isFree_of_sweep hfound
    refine .inl ⟨frame, rfl, ?_⟩
    have := (List.getElem?_eq_some_iff.mp hf).1
    rwa [Clock.length_sweep] at this
  | none =>
    refine .inr ⟨rfl, fun i hi => ?_⟩
    obtain ⟨b, hb, hheld⟩ := Clock.isHeld_of_sweep_eq_none (h.coherent.hand_lt (by omega)) (by omega)
      (fun k h1 h2 => by omega) hfound i hi
    exact ⟨b, by rw [PageCache.bufferAt?_eq, hb]; rfl, hheld⟩

/-- A page that the disk has is put into a frame whose buffer was written back before. -/
theorem Sound.putLoaded (h : db.Sound) (hlt : frame < db.cache.clock.frames.length)
    (hf : db.catalog.file f.id = .ok f) (hb : db.cache.buffer? ⟨f.id, n⟩ = none)
    (hread : f.readPage db.disk ⟨f.id, n⟩ = .ok (some p)) :
    ∃ db₁, (Database.writeBack frame).outcome db = (.ok (), db₁) ∧
      let loaded : Buffer := { serial := db₁.nextSerial, page := p }
      let db' := { db₁ with cache := db₁.cache.put frame loaded, nextSerial := db₁.nextSerial + 1 }
      db'.Sound ∧ db.Keeps db' ∧ db.CutsTo db' ∧ db'.cache.buffer? ⟨f.id, n⟩ = some loaded := by
  obtain ⟨db₁, hwrite, hwritten⟩ := h.writeBack frame
  refine ⟨db₁, hwrite, ?_⟩
  have hnew : db₁.cache.buffer? ⟨f.id, n⟩ = none := hwritten.buffer?_eq_none hb
  -- whatever was written, the disk still has the page
  have hcells : diskCells db₁.disk f n = .ok p.cells := by
    have hsame := hwritten.cells hf n
    rw [pageCells_of_buffer?_eq_none hnew, pageCells_of_buffer?_eq_none hb] at hsame
    rw [hsame]
    exact diskCells_eq_ok_iff.mpr ⟨p, hread, rfl⟩
  obtain ⟨q, hq, hqcells⟩ := diskCells_eq_ok_iff.mp hcells
  obtain ⟨-, -, hdecode, hlen⟩ := HeapFile.place_le_of_readPage hread
  obtain ⟨hp, hid, hschema, hsize, hcut⟩ := Page.wellFormed_of_decode hdecode
  have hbacked : Backed db₁.disk f { serial := db₁.nextSerial, page := p } :=
    ⟨hp, by rw [hid], hschema, hsize.trans hlen, q, by rw [hid]; exact hq, fun _ => by rw [hqcells, hcut]⟩
  obtain ⟨hsound, hkeeps, hcuts, hput⟩ := hwritten.sound.put (db₁.nextSerial + 1)
    (b := { serial := db₁.nextSerial, page := p }) (by rw [hwritten.keeps.frames]; exact hlt)
    (fun old hold => hwritten.clean hold) (by rw [hid]; exact hwritten.keeps.registered hf)
    (by rw [hid]; exact hnew) hbacked (by rw [hid]; exact hcells) rfl
  exact ⟨hsound, hwritten.keeps.trans hkeeps, hwritten.cutsTo.trans hcuts, by rw [← hid]; exact hput⟩

/-- Loading a page that is not cached. -/
theorem Sound.loadPage (h : db.Sound) (hb : db.cache.buffer? page = none) :
    ∃ r db', (Database.loadPage page).outcome db = (r, db') ∧ db'.Sound ∧ db.Keeps db'
      ∧ db.CutsTo db' ∧ Answers page db db' r := by
  have hself : db.CutsTo db := CutsTo.of_buffer? rfl rfl fun _ => rfl
  rw [outcome_loadPage]
  cases hf : db.catalog.file page.table with
  | error e =>
    exact ⟨_, _, rfl, h, Keeps.refl db, hself, .refused (by rw [Store.page, hf])⟩
  | ok f =>
    obtain ⟨table, n⟩ := page
    obtain rfl : f.id = table := h.proper.id_of_file hf
    have hstore := page_store h hf n
    rw [pageCells_of_buffer?_eq_none hb, diskCells] at hstore
    simp only [Fallible.follow_ok]
    cases hread : f.readPage db.disk ⟨f.id, n⟩ with
    | error e =>
      rw [hread] at hstore
      exact ⟨_, _, rfl, h, Keeps.refl db, hself, .refused hstore⟩
    | ok found =>
      cases found with
      | none =>
        rw [hread] at hstore
        exact ⟨_, _, rfl, h, Keeps.refl db, hself, .refused hstore⟩
      | some p =>
        rw [hread] at hstore
        simp only [outcome_findFrame]
        -- the sweep moves the hand and leaves the buffers alone
        have hbuffers := PageCache.buffer?_sweep db.cache
        let db₁ : Database := { db with cache := { db.cache with clock := db.cache.clock.evict.2 } }
        have hsweep : db₁.Sound := h.of_buffer? rfl rfl h.coherent.sweep hbuffers
        have hkeeps : db.Keeps db₁ := Keeps.of_buffer? rfl rfl (Clock.length_sweep ..) hbuffers
        have hcuts : db.CutsTo db₁ := CutsTo.of_buffer? rfl rfl hbuffers
        rcases h.evict with ⟨frame, hframe, hlt⟩ | ⟨hnone, hfull⟩
        · obtain ⟨db₂, hwrite, hsound, hkeeps', hcuts', hput⟩ := hsweep.putLoaded
            (by rw [hkeeps.frames]; exact hlt) hf (by rw [hbuffers]; exact hb) hread
          simp only [hframe, Fallible.follow_ok, db₁, hwrite]
          exact ⟨_, _, rfl, hsound, hkeeps.trans hkeeps', hcuts.trans hcuts', .found hput hstore⟩
        · simp only [hnone, Fallible.follow_error]
          exact ⟨_, _, rfl, hsweep, hkeeps, hcuts, .full hfull⟩

theorem outcome_getPage (page : PageId) (db : Database) :
    (getPage page).outcome db =
      match db.cache.touch page with
      | some (b, cache) => (.ok b, { db with cache := cache })
      | none => (Database.loadPage page).outcome db := by
  simp only [getPage, Fallible.outcome_bind, Fallible.outcome_get, Fallible.follow_ok]
  cases db.cache.touch page <;> rfl

/-- Whoever asks for a page gets its buffer, with the cells that the store tells. -/
theorem Sound.getPage (h : db.Sound) (page : PageId) :
    ∃ r db', (Database.getPage page).outcome db = (r, db') ∧ db'.Sound ∧ db.Keeps db'
      ∧ db.CutsTo db' ∧ Answers page db db' r := by
  rw [outcome_getPage]
  cases ht : db.cache.touch page with
  | none => exact h.loadPage (PageCache.touch_eq_none_iff.mp ht)
  | some found =>
    obtain ⟨b, cache⟩ := found
    obtain ⟨hcoherent, hb, hbuffers, hframes⟩ := h.coherent.touch ht
    exact ⟨_, _, rfl, h.of_buffer? rfl rfl hcoherent hbuffers, Keeps.of_buffer? rfl rfl hframes hbuffers,
      CutsTo.of_buffer? rfl rfl hbuffers, .found (by rw [hbuffers]; exact hb) (h.page_of_buffer? hb)⟩

end Database

end RelStore
