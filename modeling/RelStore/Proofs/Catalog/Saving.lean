/-
Saving a catalog and loading it again.

A schema file lists the tables in the order of their names, each with the path of its file, so what it holds depends on
the tables alone.  Loading it opens the same files and registers them under the same names.

* `Catalog.sorted` — the tables in the order of their names, which no two of them share;
* `Catalog.Matched.records_congr` — what is saved depends on the tables, not on how they came to be registered;
* `SchemaFile.opens_saved` — the files of saved tables are opened again, and nothing is made;
* `SchemaFile.load_saved` — what was saved is restored by a loading, into a catalog without tables and into any one that
  has only those;
* `CatalogCall.restores_of_load_save` — so it is for every catalog that comes about by registrations.

Design notes.  The page size is not saved: a loading says which pages the restored tables have.
-/
import RelStore.Proofs.Catalog.Loading
import RelStore.Proofs.Codec.ByteOrder
import RelStore.Proofs.Storage.Canonical

namespace RelStore

/-- What a schema file on the disk holds about a table. -/
def Table.record (d : Disk) (t : Table) : TableRecord :=
  ⟨t.name, d.absolute (Path.text t.file.path), t.file.schema, t.key⟩

/-- The table with pages of another size. -/
def Table.withPageSize (t : Table) (pageSize : Nat) : Table :=
  { t with file := { t.file with pageSize } }

namespace Catalog

variable {c c' : Catalog} {d : Disk} {t : Table}

/-- The tables in the order of their names. -/
def sorted (c : Catalog) : List Table :=
  c.tables.values.mergeSort fun a b => a.name ≤ b.name

theorem records_eq (c : Catalog) (d : Disk) : c.records d = c.sorted.map (Table.record d) := by
  have hsort := List.map_mergeSort (f := Table.record d) (l := c.tables.values)
    (r := fun a b => a.name ≤ b.name) (s := fun a b => a.name ≤ b.name) fun _ _ _ _ => rfl
  exact hsort.symm

theorem Matched.mem_sorted (h : c.Matched) : t ∈ c.sorted ↔ c.Has t := by
  rw [sorted, List.mem_mergeSort, Assoc.values, List.mem_map]
  constructor
  · rintro ⟨⟨id, t⟩, hmem, rfl⟩
    exact ((has_iff h.keyed).mp ((Assoc.mem_entries_iff h.nodup).mp hmem)).1
  · intro ht
    exact ⟨⟨t.file.id, t⟩, (Assoc.mem_entries_iff h.nodup).mpr ht, rfl⟩

theorem Matched.nodup_sorted (h : c.Matched) : c.sorted.Nodup := by
  refine (List.mergeSort_perm ..).nodup_iff.mpr ?_
  rw [Assoc.values, List.Nodup, List.pairwise_map]
  refine (List.pairwise_map.mp h.nodup).imp_of_mem fun {a b} ha hb hid htable => hid ?_
  -- one table stands under the id of its file only
  rw [← h.keyed _ _ ((Assoc.mem_entries_iff h.nodup).mp ha), ← h.keyed _ _ ((Assoc.mem_entries_iff h.nodup).mp hb),
    htable]

/-- No table takes the place of another one. -/
theorem Matched.pairwise_not_clashes (h : c.Matched) : c.sorted.Pairwise fun a b => ¬ b.Clashes a :=
  h.nodup_sorted.imp_of_mem fun ha hb hne hclash =>
    hne (h.eq_of_clashes (h.mem_sorted.mp hb) (h.mem_sorted.mp ha) hclash).symm

/-- No two tables have one name, so the order is strict. -/
theorem Matched.pairwise_sorted (h : c.Matched) : c.sorted.Pairwise fun a b => a.name < b.name := by
  have hle := @List.pairwise_mergeSort Table (fun a b => a.name ≤ b.name)
    (fun a b e hab hbe => decide_eq_true (le_trans (of_decide_eq_true hab) (of_decide_eq_true hbe)))
    (fun a b => by simpa using le_total a.name b.name) c.tables.values
  exact (hle.and h.pairwise_not_clashes).imp fun hab =>
    lt_of_le_of_ne (of_decide_eq_true hab.1) fun hname => hab.2 (.inl hname.symm)

theorem Matched.mem_records (h : c.Matched) {r : TableRecord} :
    r ∈ c.records d ↔ ∃ id, (c.table id).map (Table.record d) = .ok r := by
  rw [records_eq, List.mem_map]
  constructor
  · rintro ⟨t, ht, rfl⟩
    refine ⟨t.file.id, ?_⟩
    rw [table_eq_ok_iff.mpr (h.mem_sorted.mp ht)]
    rfl
  · rintro ⟨id, hid⟩
    cases ht : c.table id with
    | error e => simp [ht, Except.map] at hid
    | ok t =>
      rw [ht] at hid
      cases hid
      exact ⟨t, h.mem_sorted.mpr ((has_iff h.keyed).mp (table_eq_ok_iff.mp ht)).1, rfl⟩

/-- What is saved depends on the tables, not on how they came to be registered. -/
theorem Matched.records_congr (h : c.Matched) (h' : c'.Matched)
    (heq : ∀ id, (c'.table id).map (Table.record d) = (c.table id).map (Table.record d)) :
    c'.records d = c.records d := by
  have hsorted : ∀ {c : Catalog}, c.Matched → (c.records d).Pairwise fun a b => a.name < b.name := fun h => by
    rw [records_eq, List.pairwise_map]
    exact h.pairwise_sorted
  have hnodup : ∀ {c : Catalog}, c.Matched → (c.records d).Nodup := fun h =>
    (hsorted h).imp fun hlt heq => absurd (heq ▸ hlt) (lt_irrefl _)
  have hperm : (c'.records d).Perm (c.records d) := by
    rw [List.perm_ext_iff_of_nodup (hnodup h') (hnodup h)]
    intro r
    rw [h'.mem_records, h.mem_records]
    simp only [heq]
  exact hperm.eq_of_pairwise (fun a b _ _ hab hba => absurd hba (lt_asymm hab)) (hsorted h') (hsorted h)

/-- The catalog has the tables of another one, with pages of a given size. -/
structure Restores (c : Catalog) (pageSize : Nat) (c' : Catalog) : Prop where
  tableId? : ∀ name, c'.tableId? name = c.tableId? name
  table : ∀ id, c'.table id = (c.table id).map (·.withPageSize pageSize)

/-- The ids are those that the names lead to, in the order of the bytes of the names. -/
def ListsByName (c : Catalog) (ids : List TableId) : Prop :=
  ∃ names : List String, names.Pairwise (fun a b => textBytes a < textBytes b)
    ∧ (∀ name, name ∈ names ↔ ∃ id, c.tableId? name = some id) ∧ names.map c.tableId? = ids.map some

theorem Matched.listsByName (h : c.Matched) : c.ListsByName (c.sorted.map (·.file.id)) := by
  have hfind : ∀ t ∈ c.sorted, c.tableId? t.name = some t.file.id := fun t ht =>
    h.name_of_get? (h.mem_sorted.mp ht)
  refine ⟨c.sorted.map Table.name, ?_, fun name => ?_, ?_⟩
  · rw [List.pairwise_map]
    exact h.pairwise_sorted.imp textBytes_lt_iff.mpr
  · rw [List.mem_map]
    constructor
    · rintro ⟨t, ht, rfl⟩
      exact ⟨_, hfind t ht⟩
    · rintro ⟨id, hid⟩
      obtain ⟨t, ht, hname⟩ := (h.lookup _ _).mp hid
      exact ⟨t, h.mem_sorted.mpr ((has_iff h.keyed).mp ht).1, hname⟩
  · rw [List.map_map, List.map_map]
    exact List.map_congr_left hfind

end Catalog

namespace SchemaFile

variable {c : Catalog} {d : Disk} {text : String} {p : Path} {pageSize : Nat}

/-- A table whose file stands where its path says, and whose rows fit on pages of the size. -/
def Loadable (d : Disk) (pageSize : Nat) (t : Table) : Prop :=
  d.Holds t.file.path ∧ slotCount t.file.schema pageSize ≠ 0

/-- The files of saved tables are opened again, and nothing is made. -/
theorem opens_saved (hmount : d.Mounted) {ts : List Table} (hts : ∀ t ∈ ts, Loadable d pageSize t) (text : String) :
    Opens text pageSize d (ts.map (Table.record d)) (ts.map (·.withPageSize pageSize)) d := by
  induction ts with
  | nil => exact .nil d
  | cons t ts ih =>
    obtain ⟨⟨hholds, hslots⟩, hts⟩ := List.forall_mem_cons.mp hts
    refine .cons (f := (t.withPageSize pageSize).file) ?_ (ih hts)
    have hbeside : Path.beside text (t.record d).file = (t.record d).file := by
      rw [Path.beside, if_pos]
      exact Disk.isAbsolute_absolute hmount _
    rw [hbeside, HeapFile.openAt, if_neg (by exact hslots), Table.record, Disk.openFile_of_holds hmount hholds]
    rfl

/-- What is saved at a place can be read there. -/
theorem exists_save (c : Catalog) (hpath : d.resolveNew text = .ok p)
    (hsize : (Codec.writeTables (c.records d)).length < UInt64.size) :
    ∃ bytes, save d c text = .ok (d.put p bytes) ∧ (d.put p bytes).read text = .ok bytes
      ∧ Codec.decode Codec.readTables bytes.toList = some (c.records d) := by
  refine ⟨.ofList (Codec.writeTables (c.records d)), ?_, ?_, ?_⟩
  · rw [save, Disk.replace, hpath]
  · rw [Disk.read, Disk.resolveFile_of_resolveNew (Disk.resolveNew_put hpath p _)]
    simp [Disk.put]
  · rw [SparseBytes.toList_ofList]
    exact Codec.decode_writeTables hsize

/-- What was saved is restored, whatever the catalog had of it before. -/
theorem load_saved (h : c.Matched) (hmount : d.Mounted) {d' : Disk} {bytes : SparseBytes}
    (hd' : d' = d.put p bytes) (hread : d'.read text = .ok bytes)
    (hdecode : Codec.decode Codec.readTables bytes.toList = some (c.records d))
    (hfiles : ∀ t, c.Has t → Loadable d pageSize t) {c₀ : Catalog} (h₀ : c₀.Matched)
    (hcover : ∀ t, c₀.Has t → ∃ u, c.Has u ∧ u.name = t.name) :
    ∃ c', load d' c₀ text pageSize = (.ok (c.sorted.map (·.file.id)), c', d') ∧ c'.Matched
      ∧ c.Restores pageSize c' := by
  subst hd'
  set ts := c.sorted.map (·.withPageSize pageSize) with hts
  have hopens : Opens text pageSize (d.put p bytes) (c.records d) ts (d.put p bytes) := by
    rw [Catalog.records_eq]
    refine opens_saved (d := d.put p bytes) ⟨hmount.absolute, hmount.zero⟩ (fun t ht => ?_) text
    obtain ⟨hholds, hslots⟩ := hfiles t (h.mem_sorted.mp ht)
    exact ⟨hholds.put p bytes, hslots⟩
  have hload := load_of_opens hread hdecode hopens c₀
  have hids : ts.map (·.file.id) = c.sorted.map (·.file.id) := by
    rw [hts, List.map_map]
    rfl
  have hmem : ∀ t, t ∈ ts ↔ ∃ u, c.Has u ∧ u.withPageSize pageSize = t := fun t => by
    simp only [hts, List.mem_map, h.mem_sorted]
  -- no restored table replaces another one on the way
  have hclash : ts.Pairwise fun a b => ¬ b.Clashes a := by
    rw [hts, List.pairwise_map]
    exact h.pairwise_not_clashes
  have hhas : ∀ t, (c₀.registerAll ts).Has t ↔ ∃ u, c.Has u ∧ u.withPageSize pageSize = t := fun t => by
    rw [h₀.has_registerAll, Catalog.survives_iff_mem hclash, hmem]
    -- and each replaces what had its name before
    refine or_iff_left fun ⟨ht, hnot⟩ => ?_
    obtain ⟨u, hu, hname⟩ := hcover t ht
    exact hnot _ ((hmem _).mpr ⟨u, hu, rfl⟩) (.inl hname)
  obtain ⟨htable, hname⟩ := h.ext_map (h₀.registerAll ts) (·.withPageSize pageSize) (fun _ => ⟨rfl, rfl⟩) hhas
  exact ⟨_, hids ▸ hload, h₀.registerAll ts, hname, htable⟩

end SchemaFile

namespace CatalogCall

/-- Whatever was registered, a catalog that can be saved is restored by a loading into an empty one: the same names
stand for the same ids, with the same schemas and keys, and the ids come in the order of the bytes of the names.
Loading once more changes nothing, and the saved file depends only on what is saved of each table. -/
theorem restores_of_load_save {calls : List CatalogCall} {start d : Disk} {c : Catalog} {text : String} {p : Path}
    {pageSize : Nat} (hrun : run calls (Catalog.empty, start) = (c, d)) (hmount : d.Mounted)
    (hpath : d.resolveNew text = .ok p) (hfiles : ∀ id t, c.table id = .ok t → d.Holds t.file.path)
    (hslots : ∀ id t, c.table id = .ok t → slotCount t.file.schema pageSize ≠ 0)
    (hsize : (Codec.writeTables (c.records d)).length < UInt64.size) :
    ∃ d' ids restored, SchemaFile.save d c text = .ok d'
      ∧ SchemaFile.load d' Catalog.empty text pageSize = (.ok ids, restored, d')
      ∧ c.Restores pageSize restored ∧ c.ListsByName ids
      ∧ (∃ twice, SchemaFile.load d' restored text pageSize = (.ok ids, twice, d')
        ∧ (∀ name, twice.tableId? name = restored.tableId? name) ∧ ∀ id, twice.table id = restored.table id)
      ∧ ∀ others disk, let c' := (run others (Catalog.empty, disk)).1
        (∀ id, (c'.table id).map (Table.record d) = (c.table id).map (Table.record d)) →
          SchemaFile.save d c' text = .ok d' := by
  have h := matched_of_run hrun
  have hall : ∀ t, c.Has t → SchemaFile.Loadable d pageSize t := fun t ht =>
    ⟨hfiles _ t (Catalog.table_eq_ok_iff.mpr ht), hslots _ t (Catalog.table_eq_ok_iff.mpr ht)⟩
  obtain ⟨bytes, hsave, hread, hdecode⟩ := SchemaFile.exists_save c hpath hsize
  obtain ⟨restored, hload, hmatched', hrestores⟩ :=
    SchemaFile.load_saved h hmount rfl hread hdecode hall Catalog.matched_empty nofun
  have hcover : ∀ t, restored.Has t → ∃ u, c.Has u ∧ u.name = t.name := fun t ht => by
    have hname := hmatched'.name_of_get? ht
    rw [← Catalog.tableId?, hrestores.tableId?] at hname
    obtain ⟨u, hu, heq⟩ := (h.lookup _ _).mp hname
    exact ⟨u, ((Catalog.has_iff h.keyed).mp hu).1, heq⟩
  obtain ⟨twice, hload', -, hrestores'⟩ :=
    SchemaFile.load_saved h hmount rfl hread hdecode hall hmatched' hcover
  refine ⟨_, _, restored, hsave, hload, hrestores, h.listsByName, ⟨twice, hload', fun name => ?_, fun id => ?_⟩,
    fun others disk hsame => ?_⟩
  · rw [hrestores'.tableId?, hrestores.tableId?]
  · rw [hrestores'.table, hrestores.table]
  · rw [SchemaFile.save, h.records_congr (matched_run Catalog.matched_empty others) hsame]
    exact hsave

/-- The two tables, registered against the order of their names. -/
def twoTables : Catalog where
  tables := ⟨[(texts.id, ⟨"text", texts, none⟩), (numbers.id, ⟨"number", numbers, some "n"⟩)]⟩
  names := ⟨[("text", texts.id), ("number", numbers.id)]⟩

theorem records_twoTables : twoTables.records twoFiles = twoRecords := by
  have hle : ¬ "text" ≤ "number" := by decide
  simp [Catalog.records, twoTables, Assoc.values, List.mergeSort, List.MergeSort.Internal.splitInTwo, hle]
  decide

theorem eq_of_table_twoTables {id : TableId} {t : Table} (h : twoTables.table id = .ok t) :
    t.file = texts ∨ t.file = numbers := by
  obtain ⟨entry, hfind, rfl⟩ := Option.map_eq_some_iff.mp (Catalog.table_eq_ok_iff.mp h)
  have hmem := List.mem_of_find?_eq_some hfind
  simp only [twoTables, List.mem_cons, List.not_mem_nil, or_false] at hmem
  rcases hmem with rfl | rfl
  · exact .inl rfl
  · exact .inr rfl

theorem restores_of_load_save_twoTables :
    ∃ d' ids restored, SchemaFile.save twoFiles twoTables "schema.bin" = .ok d'
      ∧ SchemaFile.load d' Catalog.empty "schema.bin" 200 = (.ok ids, restored, d')
      ∧ restored.tableId? "text" = some texts.id := by
  have hrun : run [.register texts "text" none, .register numbers "number" (some "n")] (Catalog.empty, twoFiles)
      = (twoTables, twoFiles) := by decide
  have hnumbers : twoFiles.openFile "number.dat" = .ok (numbers.path, twoFiles) := by decide
  have htexts : twoFiles.openFile "text.dat" = .ok (texts.path, twoFiles) := by decide
  have hpath : twoFiles.resolveNew "schema.bin" = .ok ["schema.bin"] := by decide
  have hfiles : ∀ id t, twoTables.table id = .ok t → twoFiles.Holds t.file.path := fun id t ht => by
    rcases eq_of_table_twoTables ht with h | h
    · exact h ▸ Disk.holds_of_openFile htexts
    · exact h ▸ Disk.holds_of_openFile hnumbers
  have hslots : ∀ id t, twoTables.table id = .ok t → slotCount t.file.schema 200 ≠ 0 := fun id t ht => by
    rcases eq_of_table_twoTables ht with h | h <;> rw [h] <;> decide
  have hsize : (Codec.writeTables (twoTables.records twoFiles)).length < UInt64.size := by
    rw [records_twoTables]
    decide
  obtain ⟨d', ids, restored, hsave, hload, hrestores, -⟩ :=
    restores_of_load_save hrun ⟨.inl rfl, by decide⟩ hpath hfiles hslots hsize
  exact ⟨d', ids, restored, hsave, hload, hrestores.tableId? "text"⟩

end CatalogCall

end RelStore
