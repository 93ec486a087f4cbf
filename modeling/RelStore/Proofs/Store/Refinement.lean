/-
The cache behaves as the contents of the tables.

* `CacheCall` — the calls of a page cache, with what they answer (`CacheCall.run`) and what they would answer on
  contents without files and caches (`CacheCall.onStore`);
* `Database.Ready` — what holds before and after every call;
* `CacheCall.exists_onStore` — one call: long texts may be cut while pages come and go, and then the call does to
  the contents what it would do without a cache;
* `runCalls_ready` — all calls of a run;
* `CacheCall.run_eq_onStore` — so every call of a run of a fresh cache is a call on the contents;
* `runCalls_ne_callsOnStore` — and the cut is seen;

Design notes.  A run is a list of calls.  Stating a call after any run says it for every call of every run.
-/
import RelStore.Proofs.Store.Changes

namespace RelStore

open Page (Cells cut cutRow)
open Fallible (follow)

/-- A call of the page cache. -/
inductive CacheCall where
  | getPage (page : PageId)
  | insert (txn : TxnId) (table : TableId) (row : Row)
  | delete (txn : TxnId) (row : Row)
  | flush
  | flushPages (txn : TxnId)

namespace CacheCall

/-- What a call answers: a page with its cells, or nothing but that it was done. -/
abbrev Answer := Except StorageError (Option (PageId × Cells))

/-- The cells of the page in an answer, if there is one. -/
def Answer.cells : Answer → Cells
  | .ok (some (_, cells)) => cells
  | _ => []

/-- Whether the rows of a call have as many fields as columns. -/
def Proper : CacheCall → Prop
  | insert _ _ row => row.Complete
  | _ => True

instance : DecidablePred Proper
  | insert _ _ row => inferInstanceAs (Decidable row.Complete)
  | getPage _ | delete _ _ | flush | flushPages _ => isTrue trivial

/-- Whether the texts that a call stores are within the limit. -/
def Fits : CacheCall → Prop
  | insert _ _ row => ∀ f ∈ row.fields, f.Fits
  | _ => True

instance : DecidablePred Fits
  | insert _ _ row => inferInstanceAs (Decidable (∀ f ∈ row.fields, f.Fits))
  | getPage _ | delete _ _ | flush | flushPages _ => isTrue trivial

/-- A call through the cache. -/
def run : CacheCall → DbM StorageError (Option (PageId × Cells))
  | getPage page => (fun b => some (b.page.id, b.page.cells)) <$> Database.getPage page
  | insert txn table row => (fun _ => none) <$> Database.insertRow txn table row
  | delete txn row => (fun _ => none) <$> Database.deleteRow txn row
  | flush => (fun _ => none) <$> Database.flush
  | flushPages txn => (fun _ => none) <$> Database.flushPages txn

/-- The same call on contents without files and caches. -/
def onStore (c : Catalog) (s : Store) : CacheCall → Answer × Store
  | getPage page => ((s.page c page).map fun cells => some (page, cells), s)
  | insert _ table row => ((s.insertRow c table row).1.map fun _ => none, (s.insertRow c table row).2)
  | delete _ row => ((s.deleteRow c row).1.map fun _ => none, (s.deleteRow c row).2)
  | flush => (.ok none, s)
  | flushPages _ => (.ok none, s)

/-- When a call succeeds: a page must be there, a row must have the types of the table, and a deletion must name
a row that is there. -/
def Admitted (c : Catalog) (s : Store) : CacheCall → Prop
  | getPage page => (∃ f, c.file page.table = .ok f) ∧ page.number < (s page.table).length
  | insert _ table row => ∃ f, c.file table = .ok f ∧ row.schema.agrees f.schema = true
      ∧ Row.wellTyped f.schema row.fields = true
  | delete _ row => ∃ record, row.record = some record ∧ (∃ f, c.file record.page.table = .ok f)
      ∧ ∃ fields, s.row? record = some fields
  | flush => True
  | flushPages _ => True

end CacheCall

/-- The answers of some calls, one after the other, and the database after them. -/
def runCalls : List CacheCall → Database → List CacheCall.Answer × Database
  | [], db => ([], db)
  | call :: calls, db =>
    let (answer, db) := call.run.outcome db
    let (answers, db) := runCalls calls db
    (answer :: answers, db)

/-- The answers of some calls on contents without files and caches, and the contents after them. -/
def callsOnStore (c : Catalog) : List CacheCall → Store → List CacheCall.Answer × Store
  | [], s => ([], s)
  | call :: calls, s =>
    let (answer, s) := call.onStore c s
    let (answers, s) := callsOnStore c calls s
    (answer :: answers, s)

namespace Database

variable {db db' : Database} {n : Nat}

/-- What holds before and after every call: cache and disk fit together, and callers hold no buffer. -/
structure Ready (c : Catalog) (db : Database) : Prop where
  sound : db.Sound
  idle : db.Idle
  catalog : db.catalog = c

theorem Ready.of_keeps {c : Catalog} (h : Ready c db) (hsound : db'.Sound) (hkeeps : db.Keeps db') :
    Ready c db' :=
  ⟨hsound, h.idle.of_keeps hkeeps, hkeeps.catalog.trans h.catalog⟩

/-- A fresh cache with a frame fits to every disk. -/
theorem ready_of_ofSize (hn : 0 < n) (hcache : db.cache = PageCache.ofSize n)
    (hproper : db.catalog.Proper) : Ready db.catalog db := by
  have hnone : ∀ page, db.cache.buffer? page = none := by
    intro page
    rw [hcache]
    exact PageCache.buffer?_ofSize n page
  refine ⟨⟨by rw [hcache]; exact PageCache.coherent_ofSize n, hproper, ?_⟩, ⟨?_, ?_⟩, rfl⟩
  · intro page b hb
    rw [hnone] at hb
    cases hb
  · rw [hcache]
    simpa only [PageCache.ofSize, Clock.ofSize, List.length_replicate] using hn
  · intro page b hb
    rw [hnone] at hb
    cases hb

/-- With a fresh cache the store tells what is on the disk, and there all texts are cut already. -/
theorem each_fits_of_ofSize (hcache : db.cache = PageCache.ofSize n) : db.store.Each Fits := by
  intro table page hpage
  rw [store] at hpage
  split at hpage
  · next f hf =>
    rw [contents, List.mem_map] at hpage
    obtain ⟨k, -, rfl⟩ := hpage
    exact fits_of_buffer?_eq_none (by rw [hcache]; exact PageCache.buffer?_ofSize n _)
  · cases hpage

end Database

namespace CacheCall

open Database (Ready)

variable {c : Catalog} {db : Database} {s : Store} {call : CacheCall}

/-- One call: the contents are cut here and there, and then changed as without a cache. -/
theorem exists_onStore (h : Ready c db) (hcall : call.Proper) :
    ∃ s, db.store.CutTo s
      ∧ ((call.run.outcome db).1, (call.run.outcome db).2.store) = call.onStore c s
      ∧ Ready c (call.run.outcome db).2 := by
  -- a cache without held buffers is never full, so the last case of each operation is void
  cases call with
  | getPage page =>
    obtain ⟨r, db', hget, hsound, hkeeps, hcuts, hanswer⟩ := h.sound.getPage page
    refine ⟨db'.store, hcuts.store h.sound.proper, ?_⟩
    simp only [run, Fallible.outcome_map, hget, onStore]
    cases hanswer with
    | found hb hcells =>
      next b =>
      have hpage := hsound.page_of_buffer? hb
      rw [hkeeps.catalog, h.catalog] at hpage
      rw [hpage, Fallible.follow_ok, PageCache.id_of_buffer? hsound.coherent hb]
      exact ⟨rfl, h.of_keeps hsound hkeeps⟩
    | refused he =>
      have he' := (hcuts.store h.sound.proper).page_eq_error he
      rw [h.catalog] at he'
      rw [he']
      exact ⟨rfl, h.of_keeps hsound hkeeps⟩
    | full hfull => exact absurd hfull (h.idle.not_full h.sound)
  | insert txn table row =>
    obtain ⟨r, db', s, hinsert, hsound, hkeeps, hcut, hr⟩ := h.sound.insertRow txn table hcall
    refine ⟨s, hcut, ?_⟩
    simp only [run, Fallible.outcome_map, hinsert, onStore]
    rcases hr with hr | ⟨-, hidle, -⟩
    · rw [h.catalog] at hr
      rw [← hr]
      cases r with
      | ok u => exact ⟨rfl, h.of_keeps hsound hkeeps⟩
      | error e => exact ⟨rfl, h.of_keeps hsound hkeeps⟩
    · exact absurd h.idle hidle
  | delete txn row =>
    obtain ⟨r, db', s, hdelete, hsound, hkeeps, hcut, hr⟩ := h.sound.deleteRow txn row
    refine ⟨s, hcut, ?_⟩
    simp only [run, Fallible.outcome_map, hdelete, onStore]
    rcases hr with hr | ⟨-, hidle, -⟩
    · rw [h.catalog] at hr
      rw [← hr]
      cases r with
      | ok u => exact ⟨rfl, h.of_keeps hsound hkeeps⟩
      | error e => exact ⟨rfl, h.of_keeps hsound hkeeps⟩
    · exact absurd h.idle hidle
  | flush =>
    obtain ⟨db', hflush, hsound, hkeeps, hstore⟩ := h.sound.flush
    refine ⟨db.store, Store.CutTo.refl _, ?_⟩
    simp only [run, Fallible.outcome_map, hflush, Fallible.follow_ok, onStore, hstore]
    exact ⟨trivial, h.of_keeps hsound hkeeps⟩
  | flushPages txn =>
    obtain ⟨db', hflush, hsound, hkeeps, hstore⟩ := h.sound.flushPages txn
    refine ⟨db.store, Store.CutTo.refl _, ?_⟩
    simp only [run, Fallible.outcome_map, hflush, Fallible.follow_ok, onStore, hstore]
    exact ⟨trivial, h.of_keeps hsound hkeeps⟩

/-- What a call keeps of every page: filling a cell and emptying one must keep it. -/
theorem each_onStore {P : Except StorageError Cells → Prop} (h : s.Each P)
    (hempty : ∀ k, P (.ok (List.replicate k none)))
    (hset : ∀ page slot, P page → P (page.map fun cells => cells.set slot none))
    (hfill : ∀ txn table row, call = .insert txn table row →
      ∀ page, P page → P (page.map (Page.fillFirst row.fields))) : (call.onStore c s).2.Each P := by
  cases call with
  | getPage page => exact h
  | insert txn table row => exact h.insertRow c table hempty (hfill txn table row rfl)
  | delete txn row => exact h.deleteRow c hset
  | flush => exact h
  | flushPages txn => exact h

theorem each_readable_onStore (h : s.Each Readable) : (call.onStore c s).2.Each Readable :=
  each_onStore h (fun _ => ⟨_, rfl⟩) (fun _ _ hpage => Store.readable_map hpage _)
    fun _ _ _ _ _ hpage => Store.readable_map hpage _

theorem each_fits_onStore (h : s.Each RelStore.Fits) (hcall : call.Fits) :
    (call.onStore c s).2.Each RelStore.Fits := by
  refine each_onStore h Store.fits_replicate Store.fits_set_none ?_
  rintro txn table row rfl
  exact Store.fits_fillFirst (Page.cutRow_eq_self_iff.mpr hcall)

/-- Where all pages can be read, a call succeeds exactly if it should. -/
theorem onStore_eq_ok_iff (h : s.Each Readable) :
    (∃ answer, (call.onStore c s).1 = .ok answer) ↔ call.Admitted c s := by
  cases call with
  | getPage page =>
    rw [Admitted, ← Store.page_eq_ok_iff h, onStore]
    cases s.page c page <;> simp [Except.map]
  | insert txn table row =>
    rw [Admitted, ← Store.insertRow_eq_ok_iff h, onStore]
    cases (s.insertRow c table row).1 <;> simp [Except.map]
  | delete txn row =>
    rw [Admitted, ← Store.deleteRow_eq_ok_iff, onStore]
    cases (s.deleteRow c row).1 <;> simp [Except.map]
  | flush => exact ⟨fun _ => trivial, fun _ => ⟨_, rfl⟩⟩
  | flushPages txn => exact ⟨fun _ => trivial, fun _ => ⟨_, rfl⟩⟩

/-- A call that fails leaves every row where it is, and adds none. -/
theorem row?_of_onStore_error {e : StorageError} (h : (call.onStore c s).1 = .error e)
    (record : RecordId) : (call.onStore c s).2.row? record = s.row? record := by
  cases call with
  | getPage page => rfl
  | insert txn table row =>
    simp only [onStore] at h ⊢
    cases hr : (s.insertRow c table row).1 with
    | ok u =>
      rw [hr] at h
      cases h
    | error e' => exact Store.row?_of_insertRow_error hr record
  | delete txn row =>
    simp only [onStore] at h ⊢
    cases hr : (s.deleteRow c row).1 with
    | ok u =>
      rw [hr] at h
      cases h
    | error e' => rw [Store.eq_of_deleteRow_error hr]
  | flush => rfl
  | flushPages txn => rfl

/-! ### Runs -/

theorem runCalls_cons (call : CacheCall) (calls : List CacheCall) (db : Database) :
    runCalls (call :: calls) db
      = ((call.run.outcome db).1 :: (runCalls calls (call.run.outcome db).2).1,
        (runCalls calls (call.run.outcome db).2).2) := rfl

theorem callsOnStore_cons (c : Catalog) (call : CacheCall) (calls : List CacheCall) (s : Store) :
    callsOnStore c (call :: calls) s
      = ((call.onStore c s).1 :: (callsOnStore c calls (call.onStore c s).2).1,
        (callsOnStore c calls (call.onStore c s).2).2) := rfl

/-- Cache and disk fit together after every run. -/
theorem runCalls_ready {calls : List CacheCall} (h : Ready c db)
    (hcalls : ∀ call ∈ calls, call.Proper) : Ready c (runCalls calls db).2 := by
  induction calls generalizing db with
  | nil => exact h
  | cons call calls ih =>
    obtain ⟨s, -, -, hready⟩ := exists_onStore h (hcalls call List.mem_cons_self)
    rw [runCalls_cons]
    exact ih hready fun call hcall => hcalls call (List.mem_cons_of_mem _ hcall)

/-- What holds of every page before a run holds of every page after it, as long as cutting texts and the single
calls keep it. -/
theorem runCalls_each {P : Except StorageError Cells → Prop} {calls : List CacheCall}
    (hcut : ∀ {s t : Store}, s.CutTo t → s.Each P → t.Each P)
    (hstep : ∀ call ∈ calls, ∀ {s : Store}, s.Each P → (call.onStore c s).2.Each P)
    (h : Ready c db) (hcalls : ∀ call ∈ calls, call.Proper) (hP : db.store.Each P) :
    (runCalls calls db).2.store.Each P := by
  induction calls generalizing db with
  | nil => exact hP
  | cons call calls ih =>
    obtain ⟨s, hs, hcall, hready⟩ := exists_onStore h (hcalls call List.mem_cons_self)
    have hstore : (call.run.outcome db).2.store = (call.onStore c s).2 := congrArg Prod.snd hcall
    rw [runCalls_cons]
    refine ih (fun call hcall => hstep call (List.mem_cons_of_mem _ hcall)) hready
      (fun call hcall => hcalls call (List.mem_cons_of_mem _ hcall)) ?_
    rw [hstore]
    exact hstep call List.mem_cons_self (hcut hs hP)

theorem runCalls_each_readable {calls : List CacheCall} (h : Ready c db)
    (hcalls : ∀ call ∈ calls, call.Proper) (hreadable : db.store.Each Readable) :
    (runCalls calls db).2.store.Each Readable :=
  runCalls_each Store.CutTo.each_readable (fun _ _ _ => each_readable_onStore) h hcalls hreadable

/-- Where all texts are within the limit, they stay so. -/
theorem runCalls_each_fits {calls : List CacheCall} (h : Ready c db)
    (hcalls : ∀ call ∈ calls, call.Proper) (hfits : ∀ call ∈ calls, call.Fits)
    (hstore : db.store.Each RelStore.Fits) : (runCalls calls db).2.store.Each RelStore.Fits :=
  runCalls_each (fun hs h => by rw [hs.eq_of_fits h]; exact h)
    (fun call hcall _ h => each_fits_onStore h (hfits call hcall)) h hcalls hstore

/-- As long as all texts are within the limit, a run cannot be told from one on the contents alone. -/
theorem runCalls_eq_callsOnStore {calls : List CacheCall} (h : Ready c db)
    (hcalls : ∀ call ∈ calls, call.Proper) (hfits : ∀ call ∈ calls, call.Fits)
    (hstore : db.store.Each RelStore.Fits) :
    ((runCalls calls db).1, (runCalls calls db).2.store) = callsOnStore c calls db.store := by
  -- the contents before each call are those of the run without a cache, as nothing is cut on the way
  induction calls generalizing db with
  | nil => rfl
  | cons call calls ih =>
    obtain ⟨s, hs, hcall, hready⟩ := exists_onStore h (hcalls call List.mem_cons_self)
    obtain rfl := hs.eq_of_fits hstore
    have hanswer : (call.run.outcome db).1 = (call.onStore c db.store).1 := congrArg Prod.fst hcall
    have hafter : (call.run.outcome db).2.store = (call.onStore c db.store).2 :=
      congrArg Prod.snd hcall
    have hrest := ih hready (fun call hcall => hcalls call (List.mem_cons_of_mem _ hcall))
      (fun call hcall => hfits call (List.mem_cons_of_mem _ hcall))
      (by rw [hafter]; exact each_fits_onStore hstore (hfits call List.mem_cons_self))
    rw [runCalls_cons, callsOnStore_cons, ← hafter, ← hrest, hanswer]

/-- Every call of every run of a fresh cache behaves as a call on the contents of the tables, in which only
long texts may have been cut before; nothing is cut as long as no long text was stored. The call succeeds
exactly if it should, and if it fails every row stays where it is. -/
theorem run_eq_onStore {n : Nat} (hn : 0 < n) (hcache : db.cache = PageCache.ofSize n)
    (hproper : db.catalog.Proper) (hreadable : db.store.Each Readable) {calls : List CacheCall}
    (hcalls : ∀ call ∈ calls, call.Proper) (hcall : call.Proper) :
    let before := (runCalls calls db).2
    let after := (call.run.outcome before).2
    let answer := (call.run.outcome before).1
    ∃ s, before.store.CutTo s ∧ ((∀ call ∈ calls, call.Fits) → s = before.store)
      ∧ (answer, after.store) = call.onStore db.catalog s
      ∧ ((∃ a, answer = .ok a) ↔ call.Admitted db.catalog s)
      ∧ ∀ e, answer = .error e → ∀ record, after.store.row? record = s.row? record := by
  intro before after answer
  have hready := Database.ready_of_ofSize hn hcache hproper
  have hbefore : Ready db.catalog before := runCalls_ready hready hcalls
  obtain ⟨s, hs, hrun, -⟩ := exists_onStore hbefore hcall
  have hanswer : answer = (call.onStore db.catalog s).1 := congrArg Prod.fst hrun
  have hafter : after.store = (call.onStore db.catalog s).2 := congrArg Prod.snd hrun
  refine ⟨s, hs, fun hfits => ?_, hrun, ?_, ?_⟩
  · exact hs.eq_of_fits (runCalls_each_fits hready hcalls hfits
      (Database.each_fits_of_ofSize hcache))
  · rw [hanswer]
    exact onStore_eq_ok_iff (hs.each_readable (runCalls_each_readable hready hcalls hreadable))
  · intro e he record
    rw [hafter]
    exact row?_of_onStore_error (hanswer.symm.trans he) record

/-! ### A table of notes

One text to a page, so that a cache of one frame writes a note to the disk as soon as it is asked for another. -/

/-- A file of texts with room for one of them on a page. -/
def notesFile : HeapFile :=
  ⟨["notes.dat"], ⟨[.str], none⟩, 133⟩

/-- A database with an empty table of notes. -/
def notes (poolSize : Nat) : Database :=
  { Database.ofPoolSize poolSize with catalog := Catalog.empty.register notesFile "notes" none }

/-- Stores a note. -/
def note (text : String) : CacheCall :=
  .insert ⟨0⟩ notesFile.id ⟨notesFile.schema, [.str text], none⟩

theorem notes_table {poolSize : Nat} {id : TableId} {t : Table}
    (h : (notes poolSize).catalog.tables.get? id = some t) : notesFile.id = id ∧ t.file = notesFile := by
  have htables : (notes poolSize).catalog.tables.get? id
      = if notesFile.id = id then some ⟨"notes", notesFile, none⟩ else none := Assoc.get?_insert ..
  rw [htables] at h
  split at h
  · next hid =>
    cases h
    exact ⟨hid, rfl⟩
  · cases h

theorem notes_proper (poolSize : Nat) : (notes poolSize).catalog.Proper := by
  intro id t ht
  obtain ⟨hid, hfile⟩ := notes_table ht
  rw [hfile]
  exact ⟨hid, by decide⟩

theorem notes_each_readable (poolSize : Nat) : (notes poolSize).store.Each Readable := by
  intro id page hpage
  have hempty : notesFile.pageCount (notes poolSize).disk = 0 := by
    show notesFile.pageCount {} = 0
    decide
  rw [Database.store] at hpage
  split at hpage
  · next f hf =>
    obtain ⟨t, ht, rfl⟩ := Catalog.file_eq_ok_iff.mp hf
    rw [(notes_table ht).2, Database.contents, hempty] at hpage
    cases hpage
  · cases hpage

/-- A text of one byte too many. -/
def longText : String :=
  String.ofList (List.replicate 129 'a')

/-- A note that is asked for again after another one took its place. -/
theorem run_eq_onStore_notes :
    let before := (runCalls [note "first", note "second"] (notes 1)).2
    let call := getPage ⟨notesFile.id, 0⟩
    ((call.run.outcome before).1, (call.run.outcome before).2.store)
        = call.onStore (notes 1).catalog before.store
      ∧ ((∃ a, (call.run.outcome before).1 = .ok a) ↔ call.Admitted (notes 1).catalog before.store) := by
  intro before call
  obtain ⟨s, -, hkept, hrun, hok, -⟩ := run_eq_onStore (by decide) rfl (notes_proper 1)
    (notes_each_readable 1) (show ∀ call ∈ [note "first", note "second"], call.Proper by decide)
    (show call.Proper from trivial)
  obtain rfl := hkept (by decide)
  exact ⟨hrun, hok⟩

/-- Without the limit for texts a cache could be told from the contents alone: of two long notes in a cache of
one frame the first comes back cut. -/
theorem runCalls_ne_callsOnStore :
    ¬ ∀ {n : Nat} {db : Database} {calls : List CacheCall}, 0 < n → db.cache = PageCache.ofSize n →
      db.catalog.Proper → db.store.Each Readable → (∀ call ∈ calls, call.Proper) →
      (runCalls calls db).1 = (callsOnStore db.catalog calls db.store).1 := by
  intro h
  have hnotes := h (by decide) rfl (notes_proper 1) (notes_each_readable 1)
    (show ∀ call ∈ [note longText, note "b", getPage ⟨notesFile.id, 0⟩], call.Proper by decide)
  have hcells := congrArg (List.map Answer.cells) hnotes
  revert hcells
  decide +kernel

end CacheCall

end RelStore
