/-
Loading the tables of a schema file.

The tables that a schema file lists are opened and registered one after the other.  The first that cannot be opened
ends the loading, and those before it stay registered.

* `SchemaFile.Opens` — some tables are opened in turn, each on the disk that the one before has left;
* `SchemaFile.Stopped` — why a loading fails, and which tables were opened by then;
* `SchemaFile.load_cases` — a loading registers the tables that it opens, whether it fails or not;
* `CatalogCall.consistent_run` — names and ids of a catalog are inverse after every sequence of calls, and a
  registration replaces the table with its name and the one with its file, and no other;
* `CatalogCall.unchanged_iff_of_load_error` — which tables there are after a loading that fails, and when they are those
  from before.

Design notes.  A call may come at any time and on any disk, so files may appear, change and vanish between the calls.
-/
import RelStore.Proofs.Catalog.Registration
import RelStore.Proofs.Codec.RoundTrip

namespace RelStore

open Catalog (Survives)

namespace SchemaFile

variable {text : String} {pageSize : Nat} {d d' : Disk} {rs : List TableRecord} {ts : List Table}

/-- Some tables are opened in turn, each on the disk that the one before has left. -/
inductive Opens (text : String) (pageSize : Nat) : Disk → List TableRecord → List Table → Disk → Prop
  | nil (d : Disk) : Opens text pageSize d [] [] d
  | cons {d d' d'' : Disk} {r : TableRecord} {rs : List TableRecord} {f : HeapFile} {ts : List Table}
    (hopen : HeapFile.openAt d (Path.beside text r.file) r.schema pageSize = .ok (f, d'))
    (hrest : Opens text pageSize d' rs ts d'') :
    Opens text pageSize d (r :: rs) (⟨r.name, f, r.key⟩ :: ts) d''

/-- Tables that can be opened are all registered. -/
theorem openTables_of_opens (h : Opens text pageSize d rs ts d') (c : Catalog) :
    openTables text pageSize d c rs = (.ok (ts.map (·.file.id)), c.registerAll ts, d') := by
  induction h generalizing c with
  | nil d => rfl
  | cons hopen hrest ih =>
    rw [openTables, hopen]
    simp only [ih]
    rfl

/-- The first table that cannot be opened ends the loading. -/
theorem openTables_of_error (h : Opens text pageSize d rs ts d') {r : TableRecord} {e : StorageError}
    (hopen : HeapFile.openAt d' (Path.beside text r.file) r.schema pageSize = .error e) (after : List TableRecord)
    (c : Catalog) :
    openTables text pageSize d c (rs ++ r :: after) = (.error (.opening r.name e), c.registerAll ts, d') := by
  induction h generalizing c with
  | nil d =>
    rw [List.nil_append, openTables, hopen]
    rfl
  | cons hfirst hrest ih =>
    rw [List.cons_append, openTables, hfirst]
    simp only [ih hopen]
    rfl

/-- Either all tables can be opened, or all before one that cannot. -/
theorem exists_opens (text : String) (pageSize : Nat) (d : Disk) (rs : List TableRecord) :
    (∃ ts d', Opens text pageSize d rs ts d') ∨
      ∃ before r after ts d' e, rs = before ++ r :: after ∧ Opens text pageSize d before ts d'
        ∧ HeapFile.openAt d' (Path.beside text r.file) r.schema pageSize = .error e := by
  induction rs generalizing d with
  | nil => exact .inl ⟨_, _, .nil d⟩
  | cons r rs ih =>
    cases hopen : HeapFile.openAt d (Path.beside text r.file) r.schema pageSize with
    | error e => exact .inr ⟨[], r, rs, [], d, e, rfl, .nil d, hopen⟩
    | ok result =>
      obtain ⟨f, d'⟩ := result
      rcases ih d' with ⟨ts, d'', h⟩ | ⟨before, r', after, ts, d'', e, rfl, h, herror⟩
      · exact .inl ⟨_, _, .cons hopen h⟩
      · exact .inr ⟨r :: before, r', after, _, d'', e, rfl, .cons hopen h, herror⟩

/-- Why a loading fails, and which tables were opened by then. -/
inductive Stopped (d : Disk) (text : String) (pageSize : Nat) : SchemaFileError → List Table → Prop
  | reading {e : DiskError} (hread : d.read text = .error e) :
    Stopped d text pageSize (.reading (d.absolute text) e) []
  | decoding {bytes : SparseBytes} (hread : d.read text = .ok bytes)
    (hdecode : Codec.decode Codec.readTables bytes.toList = none) :
    Stopped d text pageSize (.decoding (d.absolute text)) []
  | opening {bytes : SparseBytes} {before after : List TableRecord} {r : TableRecord} {ts : List Table} {d' : Disk}
    {e : StorageError} (hread : d.read text = .ok bytes)
    (hdecode : Codec.decode Codec.readTables bytes.toList = some (before ++ r :: after))
    (hopens : Opens text pageSize d before ts d')
    (hopen : HeapFile.openAt d' (Path.beside text r.file) r.schema pageSize = .error e) :
    Stopped d text pageSize (.opening r.name e) ts

/-- A schema file whose tables can be opened is loaded. -/
theorem load_of_opens {bytes : SparseBytes} (hread : d.read text = .ok bytes)
    (hdecode : Codec.decode Codec.readTables bytes.toList = some rs) (hopens : Opens text pageSize d rs ts d')
    (c : Catalog) : load d c text pageSize = (.ok (ts.map (·.file.id)), c.registerAll ts, d') := by
  rw [load, hread]
  simp only [hdecode]
  exact openTables_of_opens hopens c

/-- A loading registers the tables that it opens, whether it fails or not. -/
theorem load_cases (d : Disk) (c : Catalog) (text : String) (pageSize : Nat) :
    ∃ ts d', load d c text pageSize = (.ok (ts.map (·.file.id)), c.registerAll ts, d') ∨
      ∃ e, Stopped d text pageSize e ts ∧ load d c text pageSize = (.error e, c.registerAll ts, d') := by
  rw [load]
  cases hread : d.read text with
  | error e => exact ⟨[], d, .inr ⟨_, .reading hread, rfl⟩⟩
  | ok bytes =>
    simp only
    cases hdecode : Codec.decode Codec.readTables bytes.toList with
    | none => exact ⟨[], d, .inr ⟨_, .decoding hread hdecode, rfl⟩⟩
    | some rs =>
      simp only
      rcases exists_opens text pageSize d rs with ⟨ts, d', h⟩ | ⟨before, r, after, ts, d', e, rfl, h, hopen⟩
      · exact ⟨ts, d', .inl (openTables_of_opens h c)⟩
      · exact ⟨ts, d', .inr ⟨_, .opening hread hdecode h hopen, openTables_of_error h hopen after c⟩⟩

theorem matched_load {c : Catalog} (h : c.Matched) (d : Disk) (text : String) (pageSize : Nat) :
    (load d c text pageSize).2.1.Matched := by
  obtain ⟨ts, d', hload | ⟨e, -, hload⟩⟩ := load_cases d c text pageSize <;> rw [hload] <;>
    exact h.registerAll ts

end SchemaFile

/-! ### Histories of a catalog -/

/-- What callers do to a catalog, and others to the disk below it. -/
inductive CatalogCall where
  /-- A file is registered under a name. -/
  | register (file : HeapFile) (name : String) (key : Option String)
  /-- All tables are forgotten. -/
  | clear
  /-- The tables of a schema file are loaded. -/
  | load (text : String) (pageSize : Nat)
  /-- Files are made, written or removed. -/
  | outside (disk : Disk)

namespace CatalogCall

/-- What happens at a call. -/
def step (s : Catalog × Disk) : CatalogCall → Catalog × Disk
  | register file name key => (s.1.register file name key, s.2)
  | clear => (Catalog.empty, s.2)
  | load text pageSize => (SchemaFile.load s.2 s.1 text pageSize).2
  | outside disk => (s.1, disk)

/-- What some calls do, one after the other. -/
def run (calls : List CatalogCall) (s : Catalog × Disk) : Catalog × Disk :=
  calls.foldl step s

theorem matched_step {s : Catalog × Disk} (h : s.1.Matched) (call : CatalogCall) : (step s call).1.Matched := by
  cases call with
  | register file name key => exact h.register file name key
  | clear => exact Catalog.matched_empty
  | load text pageSize => exact SchemaFile.matched_load h s.2 text pageSize
  | outside disk => exact h

theorem matched_run {s : Catalog × Disk} (h : s.1.Matched) (calls : List CatalogCall) : (run calls s).1.Matched := by
  induction calls generalizing s with
  | nil => exact h
  | cons call calls ih => exact ih (matched_step h call)

theorem matched_of_run {calls : List CatalogCall} {start d : Disk} {c : Catalog}
    (hrun : run calls (Catalog.empty, start) = (c, d)) : c.Matched := by
  have h := matched_run (s := (Catalog.empty, start)) Catalog.matched_empty calls
  rwa [hrun] at h

/-- After every sequence of calls names and ids lead to each other, and a registration replaces the table with its name
and the one with its file, and no other. -/
theorem consistent_run (calls : List CatalogCall) (start : Disk) :
    let c := (run calls (Catalog.empty, start)).1
    c.Consistent ∧ ∀ file name key, c.Takes file name key (c.register file name key) := by
  intro c
  have h : c.Matched := matched_run Catalog.matched_empty calls
  exact ⟨h.consistent, h.takes⟩

/-- After a loading that failed there are the tables that were opened by then, but for those that a later one replaced,
and the tables from before that clash with none of them.  These are the tables from before exactly if every opened table
that stays was registered so already, and every table from before that was replaced on the way is among them again. -/
theorem unchanged_iff_of_load_error {calls : List CatalogCall} {start d d' : Disk} {c c' : Catalog} {text : String}
    {pageSize : Nat} {e : SchemaFileError} (hrun : run calls (Catalog.empty, start) = (c, d))
    (hload : SchemaFile.load d c text pageSize = (.error e, c', d')) :
    ∃ opened, SchemaFile.Stopped d text pageSize e opened
      ∧ (∀ t, c'.Has t ↔ Survives opened t ∨ c.Has t ∧ ∀ u ∈ opened, ¬ u.Clashes t)
      ∧ (((∀ id, c'.table id = c.table id) ∧ ∀ name, c'.tableId? name = c.tableId? name)
        ↔ (∀ t, Survives opened t → c.Has t)
          ∧ ∀ t, c.Has t → (∃ u ∈ opened, u.Clashes t) → Survives opened t) := by
  have h := matched_of_run hrun
  obtain ⟨opened, d'', hok | ⟨e', hstopped, herror⟩⟩ := SchemaFile.load_cases d c text pageSize
  · rw [hload] at hok
    cases hok
  rw [hload] at herror
  cases herror
  have hhas := fun t => h.has_registerAll (t := t) opened
  refine ⟨opened, hstopped, hhas, ?_⟩
  constructor
  · rintro ⟨htables, -⟩
    have hsame : ∀ t, (c.registerAll opened).Has t ↔ c.Has t := fun t => by
      rw [Catalog.Has, Catalog.Has, ← Catalog.table_eq_ok_iff, ← Catalog.table_eq_ok_iff, htables]
    refine ⟨fun t ht => (hsame t).mp ((hhas t).mpr (.inl ht)), ?_⟩
    rintro t ht ⟨u, hu, hclash⟩
    exact ((hhas t).mp ((hsame t).mpr ht)).resolve_right fun hkept => hkept.2 u hu hclash
  · rintro ⟨hnew, hback⟩
    refine h.ext (h.registerAll opened) fun t => (hhas t).trans ⟨?_, fun ht => ?_⟩
    · rintro (hsurvives | ⟨ht, -⟩)
      · exact hnew t hsurvives
      · exact ht
    · by_cases hclash : ∃ u ∈ opened, u.Clashes t
      · exact .inl (hback t ht hclash)
      · exact .inr ⟨ht, fun u hu hc => hclash ⟨u, hu, hc⟩⟩

/-- A table of numbers, whose rows fit on a page of five bytes. -/
def numbers : HeapFile := ⟨["number.dat"], ⟨[.int], some [some "n"]⟩, 5⟩

/-- A table of texts and numbers, one of them without a name. -/
def texts : HeapFile := ⟨["text.dat"], ⟨[.str, .int], some [none, some "m"]⟩, 160⟩

def twoFiles : Disk := { files := ⟨[(["number.dat"], {}), (["text.dat"], {})]⟩ }

def twoRecords : List TableRecord :=
  [⟨"number", "/number.dat", numbers.schema, some "n"⟩, ⟨"text", "/text.dat", texts.schema, none⟩]

def savedFiles : Disk := twoFiles.put ["schema.bin"] (.ofList (Codec.writeTables twoRecords))

/-- On pages of five bytes the first table is registered, and the second one ends the loading. -/
theorem load_savedFiles :
    SchemaFile.load savedFiles Catalog.empty "schema.bin" 5
      = (.error (.opening "text" (.pageTooSmall 5 136)), Catalog.empty.register numbers "number" (some "n"),
        savedFiles) := by
  have hread : savedFiles.read "schema.bin" = .ok (.ofList (Codec.writeTables twoRecords)) := by
    decide +kernel
  have hdecode : Codec.decode Codec.readTables (SparseBytes.ofList (Codec.writeTables twoRecords)).toList
      = some twoRecords := by
    rw [SparseBytes.toList_ofList]
    exact Codec.decode_writeTables (by decide)
  have hfirst : HeapFile.openAt savedFiles (Path.beside "schema.bin" "/number.dat") numbers.schema 5
      = .ok (numbers, savedFiles) := by
    decide +kernel
  have hopens : SchemaFile.Opens "schema.bin" 5 savedFiles [⟨"number", "/number.dat", numbers.schema, some "n"⟩]
      [⟨"number", numbers, some "n"⟩] savedFiles := .cons hfirst (.nil _)
  have hsecond : HeapFile.openAt savedFiles (Path.beside "schema.bin" "/text.dat") texts.schema 5
      = .error (.pageTooSmall 5 136) := by
    decide +kernel
  rw [SchemaFile.load, hread]
  simp only [hdecode]
  exact SchemaFile.openTables_of_error hopens (r := ⟨"text", "/text.dat", texts.schema, none⟩) hsecond [] Catalog.empty

theorem unchanged_iff_of_load_error_savedFiles :
    ∃ opened, SchemaFile.Stopped savedFiles "schema.bin" 5 (.opening "text" (.pageTooSmall 5 136)) opened
      ∧ Survives opened ⟨"number", numbers, some "n"⟩ := by
  obtain ⟨opened, hstopped, hhas, -⟩ :=
    unchanged_iff_of_load_error (show run [] (Catalog.empty, savedFiles) = (Catalog.empty, savedFiles) from rfl)
      load_savedFiles
  refine ⟨opened, hstopped, ((hhas _).mp ?_).resolve_right fun hkept => nomatch hkept.1⟩
  exact (Catalog.matched_empty.has_register numbers "number" (some "n")).mpr (.inl rfl)

/-- A loading that fails can leave tables that were not there before. -/
theorem not_always_unchanged :
    ¬ ∀ (calls : List CatalogCall) (start d d' : Disk) (c c' : Catalog) (text : String) (pageSize : Nat)
      (e : SchemaFileError), run calls (Catalog.empty, start) = (c, d) →
        SchemaFile.load d c text pageSize = (.error e, c', d') →
          (∀ id, c'.table id = c.table id) ∧ ∀ name, c'.tableId? name = c.tableId? name := by
  intro hall
  obtain ⟨-, hnames⟩ := hall [] savedFiles _ _ _ _ _ _ _ rfl load_savedFiles
  exact absurd (hnames "number") (by decide)

end CatalogCall

end RelStore
