/-
What a refused insertion leaves behind.

A row is checked twice: its schema before a page is looked for, its fields on the page.

* `Database.SameLengths` — all files are as long as before; so they are when pages come and go
  (`Database.Sound.sameLengths_getPage`);
* `Insertion` — a row is inserted through its heap file or through the cache;
* `Database.Sound.fileInsert_refused` — an insertion that is refused for the schema leaves all rows alone; it leaves the
  file alone unless an empty page had to be appended for the row before its fields were looked at;
* `Pool.insertion_refused` — after any calls of the cache, whatever is held;
* `pageCount_noDigit` — an empty table grows by a row that it refuses.
-/
import RelStore.Proofs.Store.Errors
import RelStore.Proofs.Store.Flushing

namespace RelStore

open Page (Cells cut)
open Fallible (follow)
open TableContents (room grown)

namespace Database

variable {db db' : Database} {f : HeapFile} {n : Nat} {row : Row} {e : StorageError}

/-- All files are as long as before. -/
def SameLengths (db db' : Database) : Prop :=
  ∀ path, (db'.disk.contents path).length = (db.disk.contents path).length

theorem SameLengths.refl (db : Database) : db.SameLengths db :=
  fun _ => rfl

theorem SameLengths.trans {db₁ db₂ db₃ : Database} (h : db₁.SameLengths db₂) (h' : db₂.SameLengths db₃) :
    db₁.SameLengths db₃ :=
  fun path => (h' path).trans (h path)

theorem SameLengths.pageCount_eq (h : db.SameLengths db') (f : HeapFile) :
    f.pageCount db'.disk = f.pageCount db.disk := by
  rw [HeapFile.pageCount, HeapFile.pageCount, Disk.fileSize_eq, Disk.fileSize_eq, h]

/-! ### Pages that come and go -/

/-- A buffer is written over what its file has in its place. -/
theorem Sound.sameLengths_writeBack (h : db.Sound) (frame : Nat) :
    db.SameLengths ((Database.writeBack frame).outcome db).2 := by
  rw [outcome_writeBack]
  cases hb : db.cache.bufferAt? frame with
  | none => exact SameLengths.refl db
  | some b =>
    dsimp only
    split
    · have hbuffer : db.cache.buffer? b.page.id = some b :=
        (PageCache.buffer?_eq_some_iff h.coherent).mpr ⟨frame, hb, rfl⟩
      obtain ⟨f, hf, hbacked⟩ := h.backed hbuffer
      have hid : f.id = b.page.id.table := h.proper.id_of_file hf
      have hpage : b.page.id = ⟨f.id, b.page.id.number⟩ := by rw [hid]
      obtain ⟨-, hplace⟩ := h.place_le (by rw [hid]; exact hf) (hpage ▸ hbuffer)
      have hplace' : f.pageSize * b.page.id.number ≤ (db.disk.contents f.path).length := by omega
      obtain ⟨d, hwrite, hown, hother⟩ := HeapFile.writePage_eq hbacked.size hplace'
      have hlength := HeapFile.length_of_writePage hbacked.size hplace' hown
      rw [hf, Fallible.follow_ok, hwrite]
      intro path
      show (d.contents path).length = _
      by_cases hpath : path = f.path
      · rw [hpath, hlength]
        omega
      · rw [hother path hpath]
    · exact SameLengths.refl db

theorem Sound.sameLengths_getPage (h : db.Sound) (page : PageId) :
    db.SameLengths ((Database.getPage page).outcome db).2 := by
  rw [outcome_getPage]
  split
  · exact SameLengths.refl db
  · rw [outcome_loadPage]
    cases db.catalog.file page.table with
    | error e => exact SameLengths.refl db
    | ok f =>
      rw [Fallible.follow_ok]
      split
      · exact SameLengths.refl db
      · exact SameLengths.refl db
      · rw [outcome_findFrame]
        cases db.cache.clock.evict.1 with
        | none => exact SameLengths.refl db
        | some frame =>
          -- the sweep leaves the buffers alone, so the one that goes is written as it was
          have hswept : Database.Sound { db with cache := { db.cache with clock := db.cache.clock.evict.2 } } :=
            h.of_buffer? rfl rfl h.coherent.sweep (PageCache.buffer?_sweep db.cache)
          have hwrite := hswept.sameLengths_writeBack frame
          rw [Fallible.follow_ok]
          cases hout : (Database.writeBack frame).outcome
              { db with cache := { db.cache with clock := db.cache.clock.evict.2 } } with
          | mk r db₁ =>
            rw [hout] at hwrite
            cases r with
            | ok _ => exact hwrite
            | error e => exact hwrite

theorem Sound.sameLengths_findRoom (h : db.Sound) (table : TableId) (first count : Nat) :
    db.SameLengths ((Database.findRoom table first count).outcome db).2 := by
  induction count generalizing db first with
  | zero => exact SameLengths.refl db
  | succ count ih =>
    have hlengths := h.sameLengths_getPage ⟨table, first⟩
    obtain ⟨r, db₁, hget, hsound, -, -, -⟩ := h.getPage ⟨table, first⟩
    rw [hget] at hlengths
    rw [outcome_findRoom_succ, hget]
    cases r with
    | error e => exact hlengths
    | ok b =>
      rw [Fallible.follow_ok]
      split
      · exact hlengths
      · exact hlengths.trans (ih hsound (first + 1))

/-! ### Room for a row -/

/-- One file is longer by a page, and the others are as long as before. -/
structure GrownBy (f : HeapFile) (db db' : Database) : Prop where
  own : (db'.disk.contents f.path).length = f.pageSize * (f.pageCount db.disk + 1)
  others : ∀ path, path ≠ f.path → (db'.disk.contents path).length = (db.disk.contents path).length

theorem GrownBy.pageCount_eq (h : GrownBy f db db') (hpos : 0 < f.pageSize) :
    f.pageCount db'.disk = f.pageCount db.disk + 1 := by
  have hlt : ∀ k, k < f.pageCount db'.disk ↔ k < f.pageCount db.disk + 1 := by
    intro k
    rw [HeapFile.lt_pageCount_iff hpos, h.own]
    exact Nat.mul_lt_mul_left hpos
  have h1 := hlt (f.pageCount db'.disk)
  have h2 := hlt (f.pageCount db.disk + 1)
  omega

theorem GrownBy.of_sameLengths {db₁ db₂ db₃ : Database} (h : GrownBy f db₁ db₂) (h' : db₂.SameLengths db₃) :
    GrownBy f db₁ db₃ :=
  ⟨(h' f.path).trans h.own, fun path hpath => (h' path).trans (h.others path hpath)⟩

/-- Room for a row is found on a page that is there, or a page is appended for it. -/
theorem Sound.lengths_roomFor (h : db.Sound) (hf : db.catalog.file f.id = .ok f) {page : PageId}
    (hroom : (Database.roomFor f).outcome db = (.ok page, db')) :
    (page.number < f.pageCount db.disk ∧ db.SameLengths db')
      ∨ page.number = f.pageCount db.disk ∧ GrownBy f db db' := by
  have hlengths := h.sameLengths_findRoom f.id 0 (f.pageCount db.disk)
  obtain ⟨r, db₁, hfind, hsound, hkeeps, hcuts, hr⟩ := h.findRoom hf (Nat.zero_add _)
  have hf₁ := hcuts.registered hf
  rw [hfind] at hlengths
  rw [outcome_roomFor, hfind] at hroom
  rcases hr with rfl | ⟨rfl, -⟩
  · rw [List.drop_zero] at hroom
    cases hfound : room (db.contents f) with
    | error e =>
      rw [hfound] at hroom
      cases hroom
    | ok k =>
      rw [hfound] at hroom
      simp only [Except.map, Fallible.follow_ok, Nat.zero_add] at hroom
      by_cases hk : k < f.pageCount db.disk
      · rw [if_pos hk] at hroom
        cases hroom
        exact .inl ⟨hk, hlengths⟩
      · rw [if_neg hk] at hroom
        have hle := TableContents.room_le_length hfound
        rw [length_contents] at hle
        obtain rfl : k = f.pageCount db.disk := by omega
        -- all pages are full, so they can be read, and the file ends with the last of them
        have hroom₁ : room (db₁.contents f) = .ok (f.pageCount db₁.disk) := by
          rw [(hcuts.contents h.proper hf).room_eq, hfound, hcuts.count hf]
        have hplace := hsound.place_le_of_room hf₁ hroom₁
        rw [hcuts.count hf] at hplace
        obtain ⟨p, hp, -⟩ := Page.exists_empty ⟨f.id, f.pageCount db.disk⟩ f.schema f.pageSize
        obtain ⟨-, hid, -, hsize, -⟩ := Page.wellFormed_of_decode hp
        rw [Page.emptyBytes, SparseBytes.toList_zeros, List.length_replicate] at hsize
        have hplace' : f.pageSize * p.id.number ≤ (db₁.disk.contents f.path).length := by
          rw [hid]
          exact hplace
        obtain ⟨d, hwrite, hown, hother⟩ := HeapFile.writePage_eq hsize hplace'
        have hlength := HeapFile.length_of_writePage hsize hplace' hown
        simp only [hp, Fallible.follow_ok, hwrite] at hroom
        cases hroom
        refine .inr ⟨rfl, ?_, fun path hpath => ?_⟩
        · have hend : ¬ f.pageSize * f.pageCount db.disk < (db₁.disk.contents f.path).length := by
            rw [← HeapFile.lt_pageCount_iff (h.proper.pageSize_pos hf), hcuts.count hf]
            omega
          have hnumber : p.id.number = f.pageCount db.disk := by rw [hid]
          show (d.contents f.path).length = _
          rw [hlength, hnumber, Nat.mul_succ]
          exact Nat.max_eq_right (by omega)
        · exact (congrArg List.length (hother path hpath)).trans (hlengths path)
  · cases hroom

/-! ### Refusals -/

theorem outcome_fileInsert (f : HeapFile) (row : Row) (db : Database) :
    (fileInsert f row).outcome db =
      if row.schema.agrees f.schema then
        follow ((Database.roomFor f).outcome db) fun page db =>
          follow ((Database.getPage page).outcome db) fun b db =>
            follow (b.page.insert row, db) fun result db =>
              (.ok page, { db with cache := db.cache.modify page fun b => { b with page := result.2 } })
      else (.error (.mismatch f.schema row.schema), db) := by
  simp only [fileInsert, setPage, modifyCache, Fallible.outcome_bind, Fallible.outcome_ofExcept,
    Fallible.outcome_ite, Fallible.outcome_modify, Fallible.outcome_pure, Fallible.outcome_throw, Fallible.follow_ok]

/-- Some page of the table has an empty cell. -/
def HasRoom (f : HeapFile) (db : Database) : Prop :=
  ∃ cells, .ok cells ∈ db.store f.id ∧ none ∈ cells

/-- What a heap file leaves behind when it refuses a row for its schema: a row with another schema changes nothing, a
row with a field of another type leaves an empty page behind if no page had room for it. -/
inductive Refused (f : HeapFile) (row : Row) (db db' : Database) (s : Store) : Prop
  | schema (h : row.schema.agrees f.schema = false) (hsame : db' = db)
  | fields (h : row.schema.agrees f.schema = true) (hroom : HasRoom f db) (hstore : db'.store = s)
      (hlengths : db.SameLengths db')
  | grown (h : row.schema.agrees f.schema = true) (hroom : ¬ HasRoom f db)
      (hstore : db'.store = s.put f.id (s f.id ++ [.ok (List.replicate (slotCount f.schema f.pageSize) none)]))
      (hlengths : GrownBy f db db')

/-- A table has room just when the next row does not go behind its pages. -/
theorem hasRoom_iff (hf : db.catalog.file f.id = .ok f) (hroom : room (db.store f.id) = .ok n) :
    HasRoom f db ↔ n < f.pageCount db.disk := by
  have hlength := length_store hf
  obtain ⟨hfull, hlast⟩ := TableContents.room_eq_ok_iff.mp hroom
  rw [← hlength]
  constructor
  · rintro ⟨cells, hcells, hmem⟩
    by_contra hle
    obtain ⟨k, hk, hget⟩ := List.mem_iff_getElem.mp hcells
    obtain ⟨cells', hcells', hnone⟩ := hfull k (by omega)
    rw [List.getElem?_eq_getElem hk, hget] at hcells'
    cases hcells'
    exact hnone hmem
  · intro hlt
    rcases hlast with rfl | ⟨cells, hcells, hmem⟩
    · omega
    · exact ⟨cells, List.mem_of_getElem? hcells, hmem⟩

theorem Sound.fileInsert_refused (h : db.Sound) (hf : db.catalog.file f.id = .ok f)
    (hout : (Database.fileInsert f row).outcome db = (.error e, db')) (he : e.OfSchema) :
    ∃ s, db.store.CutTo s ∧ Refused f row db db' s := by
  rw [outcome_fileInsert] at hout
  by_cases hagrees : row.schema.agrees f.schema = true
  · rw [if_pos hagrees] at hout
    have hraises := raises_roomFor f db
    obtain ⟨r, db₁, s, hroomFor, hsound, hkeeps, hcut, hr⟩ := h.roomFor hf
    rw [hroomFor] at hout hraises
    rcases hr with ⟨n, rfl, hroom, hstore⟩ | ⟨e', rfl, -⟩
    · have hlengths := h.lengths_roomFor hf hroomFor
      have hroom₀ : room (db.store f.id) = .ok n := by rw [← (hcut f.id).room_eq, hroom]
      rw [Fallible.follow_ok] at hout
      obtain ⟨r, db₂, hget, hsound₂, hkeeps₂, hcuts₂, -⟩ := hsound.getPage ⟨f.id, n⟩
      have hsame := hsound.sameLengths_getPage ⟨f.id, n⟩
      have hraises₂ := raises_getPage ⟨f.id, n⟩ db₁
      rw [hget] at hout hsame hraises₂
      -- the error is that of the page, which was not changed
      obtain rfl : db₂ = db' := by
        cases r with
        | error e' => exact congrArg Prod.snd hout
        | ok b =>
          rw [Fallible.follow_ok] at hout
          cases hinsert : b.page.insert row with
          | ok result =>
            rw [hinsert] at hout
            cases hout
          | error e' =>
            rw [hinsert] at hout
            exact congrArg Prod.snd hout
      have hcut₂ := hcuts₂.store hsound.proper
      rw [hstore] at hcut₂
      obtain ⟨t, ht, hstore₂⟩ := hcut₂.of_grown (TableContents.room_le_length hroom)
      have hlength : (t f.id).length = f.pageCount db.disk := by
        rw [(hcut.trans ht f.id).1, length_store hf]
      refine ⟨t, hcut.trans ht, ?_⟩
      rcases hlengths with ⟨hlt, hlengths⟩ | ⟨heq, hlengths⟩
      · refine .fields hagrees ((hasRoom_iff hf hroom₀).mpr hlt) ?_ (hlengths.trans hsame)
        rw [hstore₂, TableContents.grown_of_lt (by rw [hlength]; exact hlt), Store.put_eq_self]
      · have hnumber : n = f.pageCount db.disk := heq
        refine .grown hagrees (mt (hasRoom_iff hf hroom₀).mp (by omega)) ?_ (hlengths.of_sameLengths hsame)
        rw [hstore₂, TableContents.grown_of_le (by omega)]
    · cases hout
      exact absurd he (hraises _ rfl)
  · rw [if_neg hagrees] at hout
    cases hout
    exact ⟨db.store, Store.CutTo.refl _, .schema (Bool.eq_false_iff.mpr hagrees) rfl⟩

end Database

/-- How a row is inserted into a table: through its heap file, or through the cache, on behalf of a transaction. -/
inductive Insertion where
  | throughFile
  | throughCache (txn : TxnId)
deriving DecidableEq, Repr

/-- Inserts a row into the table of a heap file. -/
def Insertion.run (f : HeapFile) (row : Row) : Insertion → DbM StorageError Unit
  | throughFile => do
    let _ ← Database.fileInsert f row
    pure ()
  | throughCache txn => Database.insertRow txn f.id row

namespace Insertion

variable {db db' : Database} {f : HeapFile} {row : Row} {e : StorageError}

/-- Either way, a row that is refused is refused by the heap file. -/
theorem outcome_fileInsert_of_error (hf : db.catalog.file f.id = .ok f) {insertion : Insertion}
    (hout : (insertion.run f row).outcome db = (.error e, db')) :
    (Database.fileInsert f row).outcome db = (.error e, db') := by
  have hdone : ∀ {α β : Type} {r : Except StorageError α × Database}
      {done : α → Database → Except StorageError β × Database},
      (∀ x db, ∃ y db', done x db = (.ok y, db')) → follow r done = (.error e, db') → r = (.error e, db') := by
    rintro α β ⟨x | x, db₁⟩ done hok h
    · cases h
      rfl
    · obtain ⟨y, db₂, hy⟩ := hok x db₁
      rw [Fallible.follow_ok, hy] at h
      cases h
  cases insertion with
  | throughFile =>
    rw [run, Fallible.outcome_bind] at hout
    exact hdone (fun x db => ⟨_, _, rfl⟩) hout
  | throughCache txn =>
    rw [run, Database.insertRow, Database.tableFile, Fallible.outcome_bind, Fallible.outcome_bind, Fallible.outcome_get,
      Fallible.follow_ok, Fallible.outcome_ofExcept, hf, Fallible.follow_ok, Fallible.outcome_bind] at hout
    exact hdone (fun x db => ⟨_, _, rfl⟩) hout

end Insertion

namespace Database

variable {db db' : Database} {f : HeapFile} {row : Row} {s : Store}

/-- Whatever was done to the file, no row is another one. -/
theorem Refused.row?_eq (h : Refused f row db db' s) (hcut : db.store.CutTo s) (hfits : db.store.Each Fits)
    (record : RecordId) : db'.store.row? record = db.store.row? record := by
  rw [hcut.eq_of_fits hfits] at h
  cases h with
  | schema _ hsame => rw [hsame]
  | fields _ _ hstore _ => rw [hstore]
  | grown _ _ hstore _ =>
    have hgrown := Store.row?_put_grown db.store f.id (slotCount f.schema f.pageSize) (db.store f.id).length record
    rw [TableContents.grown_of_le (Nat.le_refl _)] at hgrown
    rw [hstore, hgrown]

/-- The file is as it was just when no page had to be appended. -/
theorem Refused.sameFile_iff (h : Refused f row db db' s) (hpos : 0 < f.pageSize) :
    (db'.disk.fileSize f.path = db.disk.fileSize f.path ∧ f.pageCount db'.disk = f.pageCount db.disk)
      ↔ row.schema.agrees f.schema = false ∨ HasRoom f db := by
  cases h with
  | schema hagrees hsame =>
    rw [hsame]
    exact ⟨fun _ => .inl hagrees, fun _ => ⟨rfl, rfl⟩⟩
  | fields _ hroom _ hlengths =>
    refine ⟨fun _ => .inr hroom, fun _ => ⟨?_, hlengths.pageCount_eq f⟩⟩
    rw [Disk.fileSize_eq, Disk.fileSize_eq, hlengths]
  | grown hagrees hroom _ hlengths =>
    refine ⟨fun ⟨_, hcount⟩ => ?_, ?_⟩
    · rw [hlengths.pageCount_eq hpos] at hcount
      omega
    · rintro (hnot | hnot)
      · rw [hagrees] at hnot
        cases hnot
      · exact absurd hnot hroom

theorem Refused.fileSize_of_ne (h : Refused f row db db' s) {path : Path} (hpath : path ≠ f.path) :
    db'.disk.fileSize path = db.disk.fileSize path := by
  rw [Disk.fileSize_eq, Disk.fileSize_eq]
  cases h with
  | schema _ hsame => rw [hsame]
  | fields _ _ _ hlengths => exact hlengths path
  | grown _ _ _ hlengths => exact hlengths.others path hpath

end Database

/-- After any calls of the cache, with any pages held, a row that is refused for its schema leaves every row of every
table as it was, as far as texts are within the limit.  Its file is as long as before, with as many pages, just when
the row has another schema than the table, or a field of another type while some page has an empty cell; otherwise it
has one page more. -/
theorem Pool.insertion_refused {start : Database} {n : Nat} (hcache : start.cache = PageCache.ofSize n)
    (hproper : start.catalog.Proper) {before : List PoolCall} (hbefore : ∀ call ∈ before, call.Proper) {pool : Pool}
    (hpool : pool = Pool.run before ⟨start, []⟩) {f : HeapFile} (hf : start.catalog.file f.id = .ok f) {row : Row}
    {insertion : Insertion} {expected found : String} {db' : Database}
    (hout : (insertion.run f row).outcome pool.db = (.error (.schemaMismatch expected found), db')) :
    (pool.db.store.Each Fits → ∀ record, db'.store.row? record = pool.db.store.row? record)
      ∧ ((db'.disk.fileSize f.path = pool.db.disk.fileSize f.path ∧ f.pageCount db'.disk = f.pageCount pool.db.disk)
        ↔ row.schema.agrees f.schema = false ∨ Database.HasRoom f pool.db)
      ∧ (f.pageCount db'.disk = f.pageCount pool.db.disk ∨ f.pageCount db'.disk = f.pageCount pool.db.disk + 1)
      ∧ ∀ path, path ≠ f.path → db'.disk.fileSize path = pool.db.disk.fileSize path := by
  have hsound : pool.Sound n start.catalog := by
    rw [hpool]
    exact (Pool.sound_run (Pool.sound_ofSize hcache hproper) hbefore).1
  have hf' : pool.db.catalog.file f.id = .ok f := by
    rw [hsound.catalog]
    exact hf
  have hpos := hproper.pageSize_pos hf
  obtain ⟨s, hcut, hrefused⟩ := hsound.sound.fileInsert_refused hf'
    (Insertion.outcome_fileInsert_of_error hf' hout) trivial
  refine ⟨fun hfits => hrefused.row?_eq hcut hfits, hrefused.sameFile_iff hpos, ?_,
    fun path hpath => hrefused.fileSize_of_ne hpath⟩
  · cases hrefused with
    | schema _ hsame =>
      rw [hsame]
      exact .inl rfl
    | fields _ _ _ hlengths => exact .inl (hlengths.pageCount_eq f)
    | grown _ _ _ hlengths => exact .inr (hlengths.pageCount_eq hpos)

/-- A text among the digits. -/
def noDigit : Row :=
  ⟨digitsFile.schema, [.str "x"], none⟩

/-- A page full of digits, which is held. -/
def heldDigits : List PoolCall :=
  [digit 1, digit 2, digit 3, .keep ⟨digitsFile.id, 0⟩]

/-- Behind a full page a text is refused on a new one. -/
theorem insertion_refused_heldDigits :
    let pool := Pool.run heldDigits ⟨digits 2, []⟩
    let out := (Insertion.throughFile.run digitsFile noDigit).outcome pool.db
    out.1 = .error (.schemaMismatch "null(INT_TYPE)" "null(INT_TYPE)")
      ∧ (∀ record, out.2.store.row? record = pool.db.store.row? record)
      ∧ ¬ Database.HasRoom digitsFile pool.db
      ∧ digitsFile.pageCount pool.db.disk = 1 ∧ digitsFile.pageCount out.2.disk = 2 := by
  intro pool out
  have hout : out = (.error (.schemaMismatch "null(INT_TYPE)" "null(INT_TYPE)"), out.2) := by decide +kernel
  have hcalls : ∀ call ∈ heldDigits, call.Proper := by decide
  obtain ⟨hrows, hfile, -, -⟩ := Pool.insertion_refused rfl (digits_proper 2) hcalls rfl rfl hout
  have hstore : pool.db.store digitsFile.id = [.ok [some [.int 1], some [.int 2], some [.int 3]]] := by decide +kernel
  have hcounts : digitsFile.pageCount pool.db.disk = 1 ∧ digitsFile.pageCount out.2.disk = 2 := by decide +kernel
  have hcatalog : pool.db.catalog = (digits 2).catalog :=
    (Pool.sound_run (Pool.sound_ofSize rfl (digits_proper 2)) hcalls).1.catalog
  refine ⟨congrArg Prod.fst hout, hrows fun id page hpage => ?_, fun hroom => ?_, hcounts⟩
  · replace hpage : page ∈ pool.db.store id := hpage
    by_cases hid : id = digitsFile.id
    · rw [hid, hstore] at hpage
      rw [List.mem_singleton.mp hpage]
      rfl
    · rw [Database.store, hcatalog, digits_file_of_ne 2 hid] at hpage
      cases hpage
  · have hsame : digitsFile.pageCount out.2.disk = digitsFile.pageCount pool.db.disk := (hfile.mpr (.inr hroom)).2
    rw [hcounts.1, hcounts.2] at hsame
    cases hsame

/-- An empty table refuses a text, and then has a page in its file. -/
theorem pageCount_noDigit :
    let out := ((Insertion.throughCache ⟨0⟩).run digitsFile noDigit).outcome (digits 1)
    noDigit.Complete
      ∧ out.1 = .error (.schemaMismatch "null(INT_TYPE)" "null(INT_TYPE)")
      ∧ digitsFile.pageCount (digits 1).disk = 0 ∧ digitsFile.pageCount out.2.disk = 1
      ∧ (digits 1).disk.fileSize digitsFile.path = 0 ∧ out.2.disk.fileSize digitsFile.path = 13 := by
  decide +kernel

end RelStore
