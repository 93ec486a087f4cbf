/-
What a flush leaves on the disk.

* `Pool.Sound` — cache, disk and callers fit together;
* `Pool.sound_step`, `Pool.sound_run` — they do so after every call of a caller, also while buffers are held and when
  pages are dropped, and what can be read stays so;
* `Database.Sound.exists_flush` — after a flush every buffer is clean;
* `Database.Sound.diskCells_of_clean` — then the disk has what the cache shows, with long texts cut;
* `Database.flush_of_clean` — and there is nothing left to write;
* `Database.Reached` — the databases that callers come to who have let all buffers go.

Design notes.  A page that is dropped is shown by the disk from then on.  It can be read there, because the disk has a
page in the place of every buffer (`Database.Backed.read`); so nothing needs to be known of the disk beside `Sound`
and of the store beside `Readable`.
-/
import RelStore.Proofs.Store.Holding

namespace RelStore

open Page (Cells cut)
open Fallible (follow)

namespace Database

variable {db db' : Database} {f : HeapFile} {page : PageId} {b : Buffer} {frame n : Nat}

/-! ### Holders and dropped pages -/

/-- Who holds a buffer does not show. -/
theorem Sound.recount (h : db.Sound) (page : PageId) (recount : Nat → Nat) :
    let db' := { db with cache := db.cache.modify page fun b => { b with holders := recount b.holders } }
    db'.Sound ∧ db'.store = db.store := by
  intro db'
  have hbuffers := PageCache.buffer?_modify h.coherent page fun b => { b with holders := recount b.holders }
  -- a buffer afterwards is one from before, but for the number of its holders
  have hwas : ∀ {q b'}, db'.cache.buffer? q = some b' →
      ∃ b, db.cache.buffer? q = some b ∧ b'.page = b.page ∧ b'.dirty = b.dirty := by
    intro q b' hb'
    replace hb' : (db.cache.modify page _).buffer? q = some b' := hb'
    rw [hbuffers] at hb'
    split at hb'
    · obtain ⟨b, hb, rfl⟩ := Option.map_eq_some_iff.mp hb'
      exact ⟨b, hb, rfl, rfl⟩
    · exact ⟨b', hb', rfl, rfl⟩
  constructor
  · refine ⟨h.coherent.modify fun _ _ => rfl, h.proper, ?_⟩
    intro q b' hb'
    obtain ⟨b, hb, hpage, hdirty⟩ := hwas hb'
    obtain ⟨f, hf, hbacked⟩ := h.backed hb
    refine ⟨f, hf, ?_⟩
    obtain ⟨hw, htable, hschema, hsize, hread⟩ := hbacked
    rw [← hpage] at hw htable hschema hsize hread
    rw [← hdirty] at hread
    exact ⟨hw, htable, hschema, hsize, hread⟩
  · refine store_congr rfl (fun {f} _ => ⟨rfl, fun n => ?_⟩) h.proper
    show pageCells { db with cache := db.cache.modify page _ } f n = _
    rw [pageCells, pageCells, hbuffers]
    by_cases heq : page = ⟨f.id, n⟩
    · rw [if_pos heq]
      cases db.cache.buffer? ⟨f.id, n⟩ <;> rfl
    · rw [if_neg heq]

section Handles

variable {hd : Handle}

/-- A cached buffer that somebody keeps shows what it showed before. -/
theorem Sound.hold (h : db.Sound) (hb : db.cache.buffer? hd.page = some b) (hserial : b.serial = hd.serial) :
    (db.hold hd).Sound ∧ (db.hold hd).catalog = db.catalog ∧ (db.hold hd).store = db.store := by
  rw [Database.hold, Pool.modifyBuffer_of_buffer? hb hserial]
  obtain ⟨hsound, hstore⟩ := h.recount hd.page (· + 1)
  exact ⟨hsound, rfl, hstore⟩

theorem Sound.release (h : db.Sound) (hb : db.cache.buffer? hd.page = some b) (hserial : b.serial = hd.serial) :
    (db.release hd).Sound ∧ (db.release hd).catalog = db.catalog ∧ (db.release hd).store = db.store := by
  rw [Database.release, Pool.modifyBuffer_of_buffer? hb hserial]
  obtain ⟨hsound, hstore⟩ := h.recount hd.page (· - 1)
  exact ⟨hsound, rfl, hstore⟩

end Handles

/-- What holds of every page of the store, page by page. -/
theorem each_store_iff (hproper : db.catalog.Proper) {P : Except StorageError Cells → Prop} :
    db.store.Each P
      ↔ ∀ f, db.catalog.file f.id = .ok f → ∀ n < f.pageCount db.disk, P (db.pageCells f n) := by
  constructor
  · intro h f hf n hn
    refine h f.id _ (List.mem_of_getElem? (i := n) ?_)
    rw [store_eq hf, contents_getElem?, if_pos hn]
  · intro h id cells hcells
    cases hid : db.catalog.file id with
    | error e =>
      rw [store, hid] at hcells
      cases hcells
    | ok f =>
      obtain rfl := hproper.id_of_file hid
      rw [store_eq hid, contents] at hcells
      obtain ⟨n, hn, rfl⟩ := List.mem_map.mp hcells
      exact h f hid n (List.mem_range.mp hn)

/-- The disk can show every page that the cache can show. -/
theorem Sound.readable_diskCells (h : db.Sound) (hf : db.catalog.file f.id = .ok f)
    (hshown : Readable (db.pageCells f n)) : Readable (diskCells db.disk f n) := by
  cases hb : db.cache.buffer? ⟨f.id, n⟩ with
  | none => rwa [pageCells_of_buffer?_eq_none hb] at hshown
  | some b =>
    obtain ⟨f', hf', hbacked⟩ := h.backed hb
    rw [hf] at hf'
    cases hf'
    obtain ⟨q, hq, -⟩ := hbacked.read
    rw [PageCache.id_of_buffer? h.coherent hb] at hq
    exact ⟨q.cells, diskCells_eq_ok_iff.mpr ⟨q, hq, rfl⟩⟩

/-- A page that is dropped is shown by the disk. -/
theorem Sound.discardPage (h : db.Sound) (page : PageId) :
    let db' := ((Database.discardPage page : DbM StorageError Bool).outcome db).2
    db'.Sound ∧ db'.catalog = db.catalog ∧ (db.store.Each Readable → db'.store.Each Readable) := by
  intro db'
  have hdb' : db' = { db with cache := (db.cache.drop page).2 } := rfl
  have hbuffers := PageCache.buffer?_drop h.coherent page
  refine ⟨⟨h.coherent.drop page, h.proper, ?_⟩, rfl, ?_⟩
  · intro q b hb
    rw [hdb', hbuffers] at hb
    split at hb
    · cases hb
    · exact h.backed hb
  · intro hreadable
    have hproper' : db'.catalog.Proper := h.proper
    rw [each_store_iff h.proper] at hreadable
    rw [each_store_iff hproper']
    intro f hf n hn
    have hshown := hreadable f hf n hn
    rw [hdb', pageCells, hbuffers]
    by_cases hdropped : (db.cache.drop page).1 = true ∧ page = ⟨f.id, n⟩
    · rw [if_pos hdropped]
      exact h.readable_diskCells hf hshown
    · rw [if_neg hdropped]
      exact hshown

/-! ### Calls -/

/-- Every call keeps cache and disk fitting together, and what can be read stays so. -/
theorem Sound.call (h : db.Sound) {call : CacheCall} (hcall : call.Proper) :
    let db' := (call.run.outcome db).2
    db'.Sound ∧ db'.catalog = db.catalog ∧ (db.store.Each Readable → db'.store.Each Readable) := by
  have hgrown : ∀ {s : Store} (table : TableId) (slots n : Nat), s.Each Readable →
      (s.put table (TableContents.grown slots n (s table))).Each Readable :=
    fun table slots n hs => hs.put (Store.each_grown (hs table) fun _ => ⟨_, rfl⟩)
  cases call with
  | getPage page =>
    obtain ⟨r, db', hget, hsound, hkeeps, hcuts, -⟩ := h.getPage page
    rw [CacheCall.run, Fallible.snd_outcome_map, hget]
    exact ⟨hsound, hkeeps.catalog, (hcuts.store h.proper).each_readable⟩
  | insert txn table row =>
    obtain ⟨r, db', s, hinsert, hsound, hkeeps, hcut, hr⟩ := h.insertRow txn table hcall
    rw [CacheCall.run, Fallible.snd_outcome_map, hinsert]
    refine ⟨hsound, hkeeps.catalog, fun hreadable => ?_⟩
    have hs := hcut.each_readable hreadable
    rcases hr with hr | ⟨-, -, hstore | ⟨slots, n, hstore⟩⟩
    · rw [show db'.store = (s.insertRow db.catalog table row).2 from congrArg Prod.snd hr]
      exact hs.insertRow _ table (fun _ => ⟨_, rfl⟩) fun _ hpage => Store.readable_map hpage _
    · rw [hstore]
      exact hs
    · rw [hstore]
      exact hgrown table slots n hs
  | delete txn row =>
    obtain ⟨r, db', s, hdelete, hsound, hkeeps, hcut, hr⟩ := h.deleteRow txn row
    rw [CacheCall.run, Fallible.snd_outcome_map, hdelete]
    refine ⟨hsound, hkeeps.catalog, fun hreadable => ?_⟩
    have hs := hcut.each_readable hreadable
    rcases hr with hr | ⟨-, -, hstore⟩
    · rw [show db'.store = (s.deleteRow db.catalog row).2 from congrArg Prod.snd hr]
      exact hs.deleteRow _ fun _ _ hpage => Store.readable_map hpage _
    · rw [hstore]
      exact hs
  | flush =>
    obtain ⟨db', hflush, hsound, hkeeps, hstore⟩ := h.flush
    rw [CacheCall.run, Fallible.snd_outcome_map, hflush]
    exact ⟨hsound, hkeeps.catalog, fun hreadable => by rw [hstore]; exact hreadable⟩
  | flushPages txn =>
    obtain ⟨db', hflush, hsound, hkeeps, hstore⟩ := h.flushPages txn
    rw [CacheCall.run, Fallible.snd_outcome_map, hflush]
    exact ⟨hsound, hkeeps.catalog, fun hreadable => by rw [hstore]; exact hreadable⟩

/-! ### Flushes -/

/-- Buffers as they were, but clean if their page is one of the given ones. -/
def CleanedOn (pages : List PageId) (db db' : Database) : Prop :=
  ∀ i b', db'.cache.bufferAt? i = some b' → ∃ b, db.cache.bufferAt? i = some b ∧ b'.page.id = b.page.id
    ∧ (b.page.id ∈ pages ∨ b.dirty = false → b'.dirty = false)

/-- After some pages were written their buffers are clean, and every other one is as clean as before. -/
theorem Sound.cleanedOn_writePages (h : db.Sound) (pages : List PageId) :
    CleanedOn pages db ((Database.writePages pages).outcome db).2 := by
  induction pages generalizing db with
  | nil => exact fun i b' hb' => ⟨b', hb', rfl, fun hclean => hclean.resolve_left List.not_mem_nil⟩
  | cons page pages ih =>
    rw [outcome_writePages_cons]
    cases hframe : db.cache.pageTable.get? page with
    | none =>
      intro i b' hb'
      obtain ⟨b, hb, hid, hclean⟩ := ih h i b' hb'
      refine ⟨b, hb, hid, fun hor => hclean (hor.imp_left fun hmem => ?_)⟩
      -- a page that is not in the table has no buffer
      refine (List.mem_cons.mp hmem).resolve_left fun heq => ?_
      have := h.coherent.frameOf hb
      rw [heq, hframe] at this
      cases this
    | some frame =>
      obtain ⟨db₁, hwrite, hwritten⟩ := h.writeBack frame
      simp only [hwrite, Fallible.follow_ok]
      intro i b' hb'
      obtain ⟨b₁, hb₁, hid, hclean⟩ := ih hwritten.sound i b' hb'
      rw [hwritten.bufferAt] at hb₁
      split at hb₁
      · next heq =>
        obtain ⟨b, hb, rfl⟩ := Option.map_eq_some_iff.mp hb₁
        exact ⟨b, hb, hid, fun _ => hclean (.inr rfl)⟩
      · next hne =>
        refine ⟨b₁, hb₁, hid, fun hor => hclean (hor.imp_left fun hmem => ?_)⟩
        refine (List.mem_cons.mp hmem).resolve_left fun heq => hne ?_
        have := h.coherent.frameOf hb₁
        rw [heq, hframe] at this
        exact Option.some.inj this

/-- All buffers are clean. -/
def Clean (db : Database) : Prop :=
  ∀ i b, db.cache.bufferAt? i = some b → b.dirty = false

/-- A flush is never refused, does not show, and leaves every buffer clean. -/
theorem Sound.exists_flush (h : db.Sound) :
    ∃ db', Database.flush.outcome db = (.ok (), db') ∧ db'.Sound ∧ db'.catalog = db.catalog
      ∧ db'.store = db.store ∧ db'.Clean := by
  obtain ⟨db', hflush, hsound, hkeeps, hstore⟩ := h.flush
  refine ⟨db', hflush, hsound, hkeeps.catalog, hstore, ?_⟩
  have hcleaned := h.cleanedOn_writePages db.cache.pageTable.keys
  obtain ⟨db₁, hwrite, -, -, -⟩ := h.writePages db.cache.pageTable.keys
  rw [outcome_flush, hwrite] at hflush
  rw [hwrite] at hcleaned
  cases hflush
  intro i b' hb'
  -- the page of every buffer is in the table
  obtain ⟨b, hb, -, hclean⟩ := hcleaned i b' hb'
  exact hclean (.inl ((Assoc.mem_keys_iff ..).mpr ⟨i, h.coherent.frameOf hb⟩))

theorem writeBack_of_clean (hclean : db.Clean) (frame : Nat) :
    (Database.writeBack frame).outcome db = (.ok (), db) := by
  rw [outcome_writeBack]
  cases hb : db.cache.bufferAt? frame with
  | none => rfl
  | some b => simp only [hclean frame b hb, Bool.false_eq_true, if_false]

/-- Where all buffers are clean nothing is written. -/
theorem writePages_of_clean (hclean : db.Clean) (pages : List PageId) :
    (writePages pages).outcome db = (.ok (), db) := by
  induction pages with
  | nil => rfl
  | cons page pages ih =>
    rw [outcome_writePages_cons]
    cases db.cache.pageTable.get? page with
    | none => exact ih
    | some frame =>
      simp only [writeBack_of_clean hclean, Fallible.follow_ok]
      exact ih

/-- A flush of clean buffers changes no byte. -/
theorem flush_of_clean (hclean : db.Clean) :
    (flush.outcome db).1 = .ok () ∧ (flush.outcome db).2.disk = db.disk := by
  rw [outcome_flush, writePages_of_clean hclean]
  exact ⟨rfl, rfl⟩

/-- Where all buffers are clean, the disk has what the cache shows, with long texts cut. -/
theorem Sound.diskCells_of_clean (h : db.Sound) (hclean : db.Clean) (hf : db.catalog.file f.id = .ok f) (n : Nat) :
    diskCells db.disk f n = (db.pageCells f n).map cut := by
  cases hb : db.cache.buffer? ⟨f.id, n⟩ with
  | none =>
    have hfits := fits_of_buffer?_eq_none hb
    rw [pageCells_of_buffer?_eq_none hb] at hfits ⊢
    exact hfits.symm
  | some b =>
    obtain ⟨f', hf', hbacked⟩ := h.backed hb
    rw [hf] at hf'
    cases hf'
    obtain ⟨frame, hat, hid⟩ := (PageCache.buffer?_eq_some_iff h.coherent).mp hb
    obtain ⟨q, hq, hcut⟩ := hbacked.read
    rw [hid] at hq
    rw [pageCells_of_buffer? hb]
    exact diskCells_eq_ok_iff.mpr ⟨q, hq, hcut (hclean frame b hat)⟩

end Database

/-! ### Runs -/

namespace PoolCall

/-- Whether the rows of a call have as many fields as columns. -/
def Proper : PoolCall → Prop
  | cache call => call.Proper
  | _ => True

instance : DecidablePred Proper
  | cache call => inferInstanceAs (Decidable call.Proper)
  | keep _ | release _ | discard _ => isTrue trivial

end PoolCall

namespace Pool

variable {pool : Pool} {n : Nat} {c : Catalog}

/-- Cache, disk and callers fit together. -/
structure Sound (n : Nat) (c : Catalog) (pool : Pool) : Prop where
  tended : pool.Tended n
  sound : pool.db.Sound
  catalog : pool.db.catalog = c

/-- They fit together as long as nothing is cached. -/
theorem sound_ofSize {start : Database} (hcache : start.cache = PageCache.ofSize n) (hproper : start.catalog.Proper) :
    Sound n start.catalog ⟨start, []⟩ := by
  have htended := tended_ofSize n start
  rw [← hcache] at htended
  refine ⟨htended, ⟨htended.coherent, hproper, ?_⟩, rfl⟩
  intro page b hb
  rw [hcache] at hb
  cases hb

/-- Every call keeps them together, and what can be read stays so. -/
theorem sound_step (h : pool.Sound n c) {call : PoolCall} (hcall : call.Proper) :
    (pool.step call).Sound n c
      ∧ (pool.db.store.Each Readable → (pool.step call).db.store.Each Readable) := by
  have htended := tended_step h.tended call
  cases call with
  | cache call =>
    obtain ⟨hsound, hcatalog, hreadable⟩ := h.sound.call hcall
    exact ⟨⟨htended, hsound, hcatalog.trans h.catalog⟩, hreadable⟩
  | discard page =>
    obtain ⟨hsound, hcatalog, hreadable⟩ := h.sound.discardPage page
    exact ⟨⟨htended, hsound, hcatalog.trans h.catalog⟩, hreadable⟩
  | release hd =>
    simp only [step] at htended ⊢
    split
    · next hmem =>
      rw [if_pos hmem] at htended
      obtain ⟨b, hb, hserial⟩ := h.tended.kept hmem
      obtain ⟨hsound, hcatalog, hstore⟩ := h.sound.release hb hserial
      exact ⟨⟨htended, hsound, hcatalog.trans h.catalog⟩, fun hr => by rw [hstore]; exact hr⟩
    · exact ⟨h, id⟩
  | keep page =>
    obtain ⟨r, db, hget, hsound, hkeeps, hcuts, -⟩ := h.sound.getPage page
    have hreadable := (hcuts.store h.sound.proper).each_readable
    have hcatalog := hkeeps.catalog.trans h.catalog
    have hcached := @Database.buffer?_of_getPage pool.db page
    simp only [step, hget] at htended hcached ⊢
    cases r with
    | error e => exact ⟨⟨htended, hsound, hcatalog⟩, hreadable⟩
    | ok b =>
      have hb := hcached h.sound.coherent rfl
      obtain ⟨hsound', hcatalog', hstore⟩ :=
        hsound.hold (show db.cache.buffer? (⟨page, b.serial⟩ : Handle).page = some b from hb) rfl
      exact ⟨⟨htended, hsound', hcatalog'.trans hcatalog⟩, fun hr => by rw [hstore]; exact hreadable hr⟩

theorem sound_run (h : pool.Sound n c) {calls : List PoolCall} (hcalls : ∀ call ∈ calls, call.Proper) :
    (run calls pool).Sound n c ∧ (pool.db.store.Each Readable → (run calls pool).db.store.Each Readable) := by
  induction calls generalizing pool with
  | nil => exact ⟨h, id⟩
  | cons call calls ih =>
    obtain ⟨hstep, hreadable⟩ := sound_step h (hcalls call List.mem_cons_self)
    obtain ⟨hrun, hreadable'⟩ := ih hstep fun call hcall => hcalls call (List.mem_cons_of_mem _ hcall)
    exact ⟨hrun, fun hr => hreadable' (hreadable hr)⟩

/-- Where there is a frame and callers hold nothing, no buffer is held. -/
theorem Tended.idle (h : pool.Tended n) (hn : 0 < n) (hheld : pool.held = []) : pool.db.Idle := by
  refine ⟨by rw [h.frames]; exact hn, fun page b hb => ?_⟩
  have hcount := h.counted hb
  rw [hheld, List.count_nil] at hcount
  rw [Buffer.isHeld, hcount]
  rfl

/-- Where callers have let everything go there is room for every page. -/
theorem ready_run (hn : 0 < n) {start : Database} (hcache : start.cache = PageCache.ofSize n)
    (hproper : start.catalog.Proper) {calls : List PoolCall} (hcalls : ∀ call ∈ calls, call.Proper)
    (hheld : (run calls ⟨start, []⟩).held = []) :
    Database.Ready start.catalog (run calls ⟨start, []⟩).db := by
  obtain ⟨h, -⟩ := sound_run (sound_ofSize hcache hproper) hcalls
  exact ⟨h.sound, h.tended.idle hn hheld, h.catalog⟩

/-- Callers hold all frames only if they hold something, or if there are no frames. -/
theorem Tended.of_full (h : pool.Tended n) (hfull : pool.db.Full) : n = 0 ∨ pool.held ≠ [] := by
  rcases Nat.eq_zero_or_pos n with hzero | hpos
  · exact .inl hzero
  · right
    obtain ⟨b, hb, hheld⟩ := hfull 0 (by rw [h.frames]; exact hpos)
    have hcounted := h.counted ((PageCache.buffer?_eq_some_iff h.coherent).mpr ⟨0, hb, rfl⟩)
    intro hnil
    rw [hnil, List.count_nil] at hcounted
    rw [Buffer.isHeld, hcounted] at hheld
    cases hheld

/-- A run of calls that hold nothing. -/
theorem run_map_cache (calls : List CacheCall) (db : Database) (held : List Handle) :
    run (calls.map .cache) ⟨db, held⟩ = ⟨(runCalls calls db).2, held⟩ := by
  induction calls generalizing db with
  | nil => rfl
  | cons call calls ih => exact ih _

end Pool

/-- The database comes from a new cache with a frame, over tables that have room for rows.  Callers may have held
buffers since, and dropped pages, but they have let everything go. -/
def Database.Reached (db : Database) : Prop :=
  ∃ (n : Nat) (start : Database) (calls : List PoolCall), 0 < n ∧ start.cache = PageCache.ofSize n
    ∧ start.catalog.Proper ∧ (∀ call ∈ calls, call.Proper) ∧ Pool.run calls ⟨start, []⟩ = ⟨db, []⟩

/-- Every database that is reached can go on. -/
theorem Database.Reached.ready {db : Database} (h : db.Reached) : Ready db.catalog db := by
  obtain ⟨n, start, calls, hn, hcache, hproper, hcalls, hrun⟩ := h
  have hready := Pool.ready_run hn hcache hproper hcalls (by rw [hrun])
  rw [hrun] at hready
  rw [hready.catalog]
  exact hready

/-! ### A table of digits -/

/-- A file of numbers with room for three of them on a page. -/
def digitsFile : HeapFile :=
  ⟨["digits.dat"], ⟨[.int], none⟩, 13⟩

/-- A database with an empty table of digits. -/
def digits (poolSize : Nat) : Database :=
  { Database.ofPoolSize poolSize with catalog := Catalog.empty.register digitsFile "digits" none }

/-- Stores a digit. -/
def digit (k : Int32) : PoolCall :=
  .cache (.insert ⟨0⟩ digitsFile.id ⟨digitsFile.schema, [.int k], none⟩)

/-- Deletes the row at a place. -/
def undigit (page slot : Nat) : PoolCall :=
  .cache (.delete ⟨0⟩ ⟨digitsFile.schema, [], some ⟨⟨digitsFile.id, page⟩, slot⟩⟩)

theorem digits_proper (poolSize : Nat) : (digits poolSize).catalog.Proper := by
  have hempty : Catalog.empty.Proper := fun _ _ h => nomatch h
  have hopen : HeapFile.openAt {} "digits.dat" digitsFile.schema digitsFile.pageSize = .ok (digitsFile, _) := rfl
  exact hempty.register hopen

/-- There is no other table. -/
theorem digits_file_of_ne (poolSize : Nat) {id : TableId} (hid : id ≠ digitsFile.id) :
    (digits poolSize).catalog.file id = .error (.unknownTable id) := by
  have hnone : (digits poolSize).catalog.tables.get? id = none :=
    (Assoc.get?_insert _ digitsFile.id id _).trans (if_neg (Ne.symm hid))
  rw [Catalog.file, Catalog.table, hnone]
  rfl

end RelStore
