/-
The meaning of a plan, and that reading the plan gives it.

* `Plan.Built` — the plan is put together as the constructors of operators do, over rows of the right types;
* `Plan.meaning` — the rows of a plan, told from the contents of the tables alone;
* `Plan.Built.meaning_conforms` — they have the types of the plan's columns;
* `Plan.Built.yields` — the operators hand out these rows;
* `Plan.readAll_eq_meaning` — so reading a plan to its end gives its meaning.
-/
import RelStore.Proofs.Query.Plans
import RelStore.Proofs.Schema.Names
import RelStore.Proofs.Store.Flushing

namespace RelStore

open Database (Ready Reached Steady)

variable {c : Catalog} {s : Store} {db : Database} {schema : Schema}

/-! ### Columns -/

/-- The fields of a row have the types of a schema. -/
def Row.Conforms (schema : Schema) (r : Row) : Prop :=
  r.fields.map Field.type = schema.types

namespace Schema

variable {a b : Schema}

theorem types_qualify {label : Option String} (h : a.qualify label = .ok b) : b.types = a.types := by
  rw [qualify] at h
  cases hcols : a.columns <;> rw [hcols] at h <;> cases h
  rfl

theorem types_append (h : a.append b = .ok schema) : schema.types = a.types ++ b.types := by
  obtain ⟨as, bs, -, -, rfl⟩ := append_eq_ok_iff.mp h
  rfl

/-- Listed columns are there, and have their types. -/
theorem pickColumns_eq_ok {fields : List Nat} {columns : List (FieldType × Option String)}
    (h : a.pickColumns fields = .ok columns) : fields.map (a.types[·]?) = columns.map (some ·.1) := by
  induction fields generalizing columns with
  | nil =>
    cases h
    rfl
  | cons i fields ih =>
    obtain ⟨type, htype, hnamed⟩ := bind_eq_ok_iff.mp h
    obtain ⟨name, -, hlisted⟩ := bind_eq_ok_iff.mp hnamed
    obtain ⟨rest, hrest, hcolumns⟩ := bind_eq_ok_iff.mp hlisted
    cases hcolumns
    rw [List.map_cons, List.map_cons, typeAt_eq_ok_iff.mp htype, ih hrest]

theorem types_project {fields : List Nat} (h : a.project fields = .ok b) :
    fields.map (a.types[·]?) = b.types.map some := by
  obtain ⟨columns, hcolumns, hnames⟩ := bind_eq_ok_iff.mp h
  obtain ⟨-, -, rfl⟩ := withNames_eq_ok_iff.mp hnames
  rw [pickColumns_eq_ok hcolumns, List.map_map]
  rfl

end Schema

/-- The rows of a table have the types of its columns. -/
def Store.Typed (c : Catalog) (s : Store) : Prop :=
  ∀ {f : HeapFile}, c.file f.id = .ok f → ∀ cells, Except.ok cells ∈ s f.id → ∀ fields, some fields ∈ cells →
    fields.map Field.type = f.schema.types

theorem Database.Ready.typed (h : Ready c db) : db.store.Typed c := by
  intro f hf cells hcells fields hfields
  have hf' : db.catalog.file f.id = .ok f := by
    rw [h.catalog]
    exact hf
  rw [Database.store_eq hf', Database.contents, List.mem_map] at hcells
  obtain ⟨n, -, hcells⟩ := hcells
  exact h.sound.types_of_pageCells hf' hcells hfields

/-! ### Meaning -/

namespace Plan

/-- The plan is put together as operators are: a scan has the columns of a registered table, fixed rows conform
to their columns, a projection and a join have the columns that come from their children. -/
def Built (c : Catalog) : Plan → Prop
  | scan target file schema =>
    c.file target.table = .ok file ∧ file.schema.qualify target.label = .ok schema
  | values schema rows => ∀ row ∈ rows, row.Conforms schema
  | filter _ child => child.Built c
  | project fields schema child => child.schema.project fields = .ok schema ∧ child.Built c
  | join _ schema left right =>
    left.schema.append right.schema = .ok schema ∧ left.Built c ∧ right.Built c
  | insert .. | delete .. | aggregate .. | groups .. => False

/-- The rows of a plan: those of the table page by page and slot by slot, the accepted ones, the listed fields
of each, and for each left row and each right row that are accepted together the fields of both. -/
def meaning (s : Store) : Plan → List Row
  | scan _ file schema => Source.scanRows s file schema
  | values _ rows => rows
  | filter q child => (child.meaning s).filter q.accepts
  | project fields schema child =>
    (child.meaning s).map fun row => ⟨schema, fields.map fun i => row.fields.getD i default, none⟩
  | join q schema left right => (left.meaning s).flatMap fun l =>
    ((right.meaning s).filter (q.accepts l)).map fun r => ⟨schema, l.fields ++ r.fields, none⟩
  | insert .. | delete .. | aggregate .. | groups .. => []

variable {p child left right : Plan}

/-! ### The rows of a plan -/

/-- The fields of a projected row, when all of them are there. -/
theorem filterMap_fields_eq {a b : Schema} {fields : List Nat} {row : Row}
    (hfields : fields.map (a.types[·]?) = b.types.map some) (hrow : row.Conforms a) :
    fields.filterMap (row.fields[·]?) = fields.map (fun i => row.fields.getD i default)
      ∧ (fields.map fun i => row.fields.getD i default).map Field.type = b.types := by
  have htype : ∀ i : Nat, a.types[i]? = (row.fields[i]?).map Field.type := by
    intro i
    rw [← hrow, List.getElem?_map]
  -- a listed column is there, so the default is never taken
  have hget : ∀ i ∈ fields, row.fields[i]? = some (row.fields.getD i default) := by
    intro i hi
    have hmem : a.types[i]? ∈ b.types.map some := by
      rw [← hfields]
      exact List.mem_map.mpr ⟨i, hi, rfl⟩
    obtain ⟨t, -, ht⟩ := List.mem_map.mp hmem
    rw [htype] at ht
    obtain ⟨f, hf, -⟩ := Option.map_eq_some_iff.mp ht.symm
    rw [List.getD_eq_getElem?_getD, hf, Option.getD_some]
  constructor
  · calc fields.filterMap (row.fields[·]?)
      _ = (fields.map (row.fields[·]?)).filterMap id := by rw [List.filterMap_map]; rfl
      _ = (fields.map fun i => some (row.fields.getD i default)).filterMap id := by
        rw [List.map_congr_left hget]
      _ = fields.map fun i => row.fields.getD i default := by
        rw [List.filterMap_map, ← List.filterMap_eq_map]
        rfl
  · have hsome : ((fields.map fun i => row.fields.getD i default).map Field.type).map some
        = b.types.map some := by
      rw [← hfields, List.map_map, List.map_map]
      exact List.map_congr_left fun i hi => by rw [htype, hget i hi]; rfl
    exact (List.map_inj_right fun _ _ => Option.some.inj).mp hsome

/-- The rows of a plan have the types of its columns. -/
theorem Built.meaning_conforms (hp : p.Built c) (hproper : c.Proper) (hs : s.Typed c) :
    ∀ row ∈ p.meaning s, row.Conforms p.schema := by
  induction p with
  | scan target f schema =>
    obtain ⟨hf, hschema⟩ := hp
    have hid := hproper.id_of_file hf
    rw [← hid] at hf
    intro row hrow
    rw [Row.Conforms, Plan.schema, Schema.types_qualify hschema]
    exact TableContents.of_mem_rowsFrom (hs hf) hrow
  | values schema rows => exact hp
  | filter q child ih => exact fun row hrow => ih hp row (List.mem_filter.mp hrow).1
  | project fields schema child ih =>
    intro row hrow
    obtain ⟨r, hr, rfl⟩ := List.mem_map.mp hrow
    exact (filterMap_fields_eq (Schema.types_project hp.1) (ih hp.2 r hr)).2
  | join q schema left right ihl ihr =>
    intro row hrow
    obtain ⟨l, hl, hrow⟩ := List.mem_flatMap.mp hrow
    obtain ⟨r, hr, rfl⟩ := List.mem_map.mp hrow
    rw [Row.Conforms, Plan.schema, Schema.types_append hp.1, List.map_append, ihl hp.2.1 l hl,
      ihr hp.2.2 r (List.mem_filter.mp hr).1]
  | insert txn table schema child => exact hp.elim
  | delete txn child => exact hp.elim
  | aggregate spec schema child => exact hp.elim
  | groups number spec => exact hp.elim

/-- The accepted pairs are those of each left row in turn. -/
theorem joinRows_pairs (q : JoinPredicate) (schema : Schema) (xs ys : List Row) :
    joinRows q schema (pairs xs ys)
      = xs.flatMap fun l => (ys.filter (q.accepts l)).map fun r => Row.append schema l r := by
  induction xs with
  | nil => rfl
  | cons x xs ih =>
    rw [pairs_cons, joinRows, List.filter_append, List.map_append, List.flatMap_cons, ← ih, joinRows,
      List.filter_map, List.map_map]
    rfl

/-- A plan that was built reads. -/
theorem Built.reads (hp : p.Built c) (hproper : c.Proper) : p.Reads c := by
  induction p with
  | scan target f schema =>
    rw [Reads, hproper.id_of_file hp.1]
    exact hp.1
  | values schema rows => trivial
  | filter q child ih => exact ih hp
  | project fields schema child ih => exact ih hp.2
  | join q schema left right ihl ihr => exact ⟨ihl hp.2.1, ihr hp.2.2⟩
  | insert txn table schema child => exact hp
  | delete txn child => exact hp
  | aggregate spec schema child => exact hp.elim
  | groups number spec => exact hp

end Plan

/-- The table has pages, and all of them can be read and have texts within the limit. -/
def TableContents.Usable (pages : TableContents) : Prop :=
  pages ≠ [] ∧ ∀ page ∈ pages, Readable page ∧ Fits page

namespace Plan

variable {p : Plan}

/-- Over usable tables the operators of a plan hand out its meaning. -/
theorem Built.yields (hp : p.Built c) (hproper : c.Proper) (hs : s.Typed c)
    (htables : ∀ id ∈ p.tables, (s id).Usable) : p.Yields (Steady c s) (p.meaning s) none := by
  induction p with
  | scan target f schema =>
    obtain ⟨hpages, husable⟩ := htables f.id List.mem_cons_self
    have hscan : (Plan.scan target f schema).Yields (Steady c s) _ _ :=
      yields_scan target (hp.reads hproper) (fun page hpage => (husable page hpage).2) hpages
    rw [TableContents.fault_of_readable fun page hpage => (husable page hpage).1] at hscan
    exact hscan
  | values schema rows => exact yields_values rows
  | filter q child ih => exact (ih hp htables).filter q
  | project fields schema child ih =>
    have hchild := (ih hp.2 htables).project fields schema
    have hrows : (child.meaning s).map (Source.pick fields schema) = (Plan.project fields schema child).meaning s := by
      refine List.map_congr_left fun row hrow => ?_
      rw [Source.pick, (filterMap_fields_eq (Schema.types_project hp.1)
        (hp.2.meaning_conforms hproper hs row hrow)).1]
    rw [hrows] at hchild
    exact hchild
  | join q schema left right ihl ihr =>
    have hleft := ihl hp.2.1 fun id hid => htables id (List.mem_append_left _ hid)
    have hright := ihr hp.2.2 fun id hid => htables id (List.mem_append_right _ hid)
    have hrows : joinRows q schema (pairs (left.meaning s) (right.meaning s))
        = (Plan.join q schema left right).meaning s := joinRows_pairs q schema _ _
    rw [← hrows]
    -- with an empty child the operator never looks for a pair, and there is none
    by_cases hempty : left.meaning s = [] ∨ right.meaning s = []
    · have hpairs : pairs (left.meaning s) (right.meaning s) = [] := by
        rcases hempty with h | h <;> simp [pairs, h]
      rw [hpairs]
      refine (hleft.join_nil q schema hright hempty).1 ?_
      rw [Source.Follows.emptyEnd]
      split <;> rfl
    · rw [not_or] at hempty
      have hjoin := hleft.join q schema hright hempty.1 hempty.2
      rw [allPairs_none] at hjoin
      exact hjoin
  | insert txn table schema child => exact hp.elim
  | delete txn child => exact hp.elim
  | aggregate spec schema child => exact hp.elim
  | groups number spec => exact hp.elim

/-- A plan over usable tables, opened and read to its end, gives its meaning. -/
theorem readAll_eq_meaning (hdb : db.Reached) (hp : p.Built db.catalog)
    (htables : ∀ id ∈ p.tables, (db.store id).Usable) :
    ∃ n, ∀ fuel, n ≤ fuel → (p.readAll fuel db).1 = .ok (p.meaning db.store) := by
  have hready := hdb.ready
  obtain ⟨n, hn⟩ := (hp.yields hready.sound.proper hready.typed htables).readAll
  refine ⟨n, fun fuel hfuel => ?_⟩
  obtain ⟨db', hread, -⟩ := hn fuel hfuel db hready.steady
  rw [hread]
  rfl

/-! ### Notes in pairs -/

open CacheCall (notes notesFile note runCalls_each_readable runCalls_each_fits)

/-- The calls that store two notes, which take a page each. -/
def storeTwo : List CacheCall :=
  [note "first", note "second"]

theorem storeTwo_proper : ∀ call ∈ storeTwo, call.Proper := by decide

theorem notes_ready : Ready (notes 1).catalog (notes 1) :=
  Database.ready_of_ofSize (by decide) rfl (CacheCall.notes_proper 1)

theorem storeTwo_reached : (runCalls storeTwo (notes 1)).2.Reached :=
  ⟨1, notes 1, storeTwo.map .cache, by decide, rfl, CacheCall.notes_proper 1, List.forall_mem_map.mpr storeTwo_proper,
    Pool.run_map_cache storeTwo (notes 1) []⟩

theorem storeTwo_catalog : (runCalls storeTwo (notes 1)).2.catalog = (notes 1).catalog :=
  (CacheCall.runCalls_ready notes_ready storeTwo_proper).catalog

theorem storeTwo_fits : ∀ call ∈ storeTwo, call.Fits := by decide

theorem storeTwo_store :
    (runCalls storeTwo (notes 1)).2.store = (callsOnStore (notes 1).catalog storeTwo (notes 1).store).2 := by
  rw [← CacheCall.runCalls_eq_callsOnStore notes_ready storeTwo_proper storeTwo_fits
    (Database.each_fits_of_ofSize (n := 1) rfl)]

theorem storeTwo_usable : ((runCalls storeTwo (notes 1)).2.store notesFile.id).Usable := by
  have hreadable := runCalls_each_readable notes_ready storeTwo_proper (CacheCall.notes_each_readable 1)
  have hfits := runCalls_each_fits notes_ready storeTwo_proper storeTwo_fits
    (Database.each_fits_of_ofSize (n := 1) rfl)
  refine ⟨fun h => ?_, fun page hpage => ⟨hreadable _ page hpage, hfits _ page hpage⟩⟩
  have hlen : ((runCalls storeTwo (notes 1)).2.store notesFile.id).length = 0 := by rw [h, List.length_nil]
  rw [storeTwo_store] at hlen
  revert hlen
  decide +kernel

/-- All notes, under the name of the table. -/
def allNotes : Plan :=
  .scan ⟨notesFile.id, "notes", some "notes"⟩ notesFile ⟨[.str], some [some "notes.null"]⟩

/-- Every note with every other one. -/
def notePairs : Plan :=
  .join ⟨0, .notEqual, 0⟩ ⟨[.str, .str], some [some "notes.null", some "notes.null"]⟩ allNotes allNotes

/-- Two notes, each with the other one. -/
def twoPairs : List Row :=
  [⟨notePairs.schema, [.str "first", .str "second"], none⟩, ⟨notePairs.schema, [.str "second", .str "first"], none⟩]

theorem notePairs_built : notePairs.Built (runCalls storeTwo (notes 1)).2.catalog := by
  have hscan : allNotes.Built (runCalls storeTwo (notes 1)).2.catalog := by
    rw [storeTwo_catalog]
    exact ⟨rfl, rfl⟩
  exact ⟨rfl, hscan, hscan⟩

theorem notePairs_usable :
    ∀ id ∈ notePairs.tables, ((runCalls storeTwo (notes 1)).2.store id).Usable := by
  intro id hid
  obtain rfl : id = notesFile.id := by simpa [notePairs, allNotes, tables] using hid
  exact storeTwo_usable

theorem notePairs_meaning : notePairs.meaning (runCalls storeTwo (notes 1)).2.store = twoPairs := by
  rw [storeTwo_store]
  decide +kernel

/-- A join of a table with itself. -/
theorem readAll_eq_meaning_notes :
    ∃ n, ∀ fuel, n ≤ fuel → (notePairs.readAll fuel (runCalls storeTwo (notes 1)).2).1 = .ok twoPairs := by
  rw [← notePairs_meaning]
  exact readAll_eq_meaning storeTwo_reached notePairs_built notePairs_usable

end Plan

end RelStore
