/-
Names and ids of a catalog.

A catalog keeps its tables by id and the ids by name.  Registering a table keeps the two inverse to each other,
whatever name and file it has.

* `Catalog.Matched` — every name leads to the table that has it, and every table is found by its name;
* `Catalog.has_register` — after a registration there are the new table, and those that share neither name nor
  file with it;
* `Catalog.has_registerAll` — of several registrations those count that no later one clashes with;
* `Catalog.Consistent`, `Catalog.Takes` — what the lookups tell about each other, and what they tell after a
  registration.

Design notes.  `Catalog.Has` tells of a table by itself: a catalog whose names and ids match is known by the
tables that it has (`Catalog.Matched.ext`).
-/
import Mathlib.Data.List.Nodup
import Mathlib.Tactic.Tauto
import RelStore.Catalog

namespace RelStore

/-- Two tables with one name or one file cannot be registered together. -/
def Table.Clashes (a b : Table) : Prop :=
  a.name = b.name ∨ a.file.id = b.file.id

namespace Catalog

variable {c c' : Catalog} {id : TableId} {t : Table}

/-- Every table stands under the id of its file. -/
def Keyed (c : Catalog) : Prop :=
  ∀ id t, c.tables.get? id = some t → t.file.id = id

theorem keyed_empty : Catalog.empty.Keyed :=
  fun _ _ h => nomatch h

theorem Keyed.register (h : c.Keyed) (file : HeapFile) (name : String) (key : Option String) :
    (c.register file name key).Keyed := by
  intro id t ht
  rw [get?_tables_register] at ht
  split at ht
  · next hid =>
    cases ht
    exact hid
  · split at ht
    · cases ht
    · exact h id t ht

/-- The catalog has the table, with this name, file and key. -/
def Has (c : Catalog) (t : Table) : Prop :=
  c.tables.get? t.file.id = some t

theorem has_iff (h : c.Keyed) : c.tables.get? id = some t ↔ c.Has t ∧ t.file.id = id := by
  constructor
  · intro ht
    have hid := h id t ht
    exact ⟨by rw [Has, hid, ht], hid⟩
  · rintro ⟨ht, rfl⟩
    exact ht

/-- Every name leads to the table that has it, and every table is found by its name. -/
structure Matched (c : Catalog) : Prop where
  keyed : c.Keyed
  lookup : ∀ name id, c.names.get? name = some id ↔ ∃ t, c.tables.get? id = some t ∧ t.name = name
  nodup : c.tables.keys.Nodup

theorem matched_empty : Catalog.empty.Matched :=
  ⟨keyed_empty, fun _ _ => ⟨nofun, fun ⟨_, h, _⟩ => nomatch h⟩, List.nodup_nil⟩

theorem Matched.name_of_get? (h : c.Matched) (ht : c.tables.get? id = some t) :
    c.names.get? t.name = some id :=
  (h.lookup _ _).mpr ⟨t, ht, rfl⟩

/-- No two tables have one name, or one file. -/
theorem Matched.eq_of_clashes (h : c.Matched) {u : Table} (ht : c.Has t) (hu : c.Has u) (hclash : t.Clashes u) :
    t = u := by
  have hid : t.file.id = u.file.id := by
    rcases hclash with hname | hid
    · refine Option.some.inj ?_
      rw [← h.name_of_get? ht, ← h.name_of_get? hu, hname]
    · exact hid
  exact Option.some.inj (ht.symm.trans (hid ▸ hu))

theorem Matched.get?_names_iff (h : c.Matched) (ht : c.tables.get? id = some t) (name : String) :
    c.names.get? name = some id ↔ t.name = name := by
  rw [h.lookup]
  constructor
  · rintro ⟨u, hu, rfl⟩
    cases ht.symm.trans hu
    rfl
  · rintro rfl
    exact ⟨t, ht, rfl⟩

/-! ### One registration -/

section Register

variable (h : c.Matched) (file : HeapFile) (name : String) (key : Option String)

include h

/-- The tables that stay are those with another name and another file. -/
theorem Matched.get?_tables_register_iff :
    (c.register file name key).tables.get? id = some t ↔
      t = ⟨name, file, key⟩ ∧ file.id = id ∨ (file.id ≠ id ∧ t.name ≠ name) ∧ c.tables.get? id = some t := by
  rw [get?_tables_register]
  by_cases hid : file.id = id
  · rw [if_pos hid, Option.some.injEq]
    constructor
    · rintro rfl
      exact .inl ⟨rfl, hid⟩
    · rintro (⟨rfl, -⟩ | ⟨⟨hne, -⟩, -⟩)
      · rfl
      · exact absurd hid hne
  · rw [if_neg hid]
    constructor
    · intro ht
      split at ht
      · cases ht
      · next hold => exact .inr ⟨⟨hid, fun hname => hold ((h.get?_names_iff ht name).mpr hname)⟩, ht⟩
    · rintro (⟨-, heq⟩ | ⟨⟨-, hname⟩, ht⟩)
      · exact absurd heq hid
      · rw [if_neg fun hold => hname ((h.get?_names_iff ht name).mp hold), ht]

/-- The names that stay are the other ones, but for the one that the file had before. -/
theorem Matched.get?_names_register_iff {other : String} :
    (c.register file name key).names.get? other = some id ↔
      other = name ∧ file.id = id ∨ (file.id ≠ id ∧ other ≠ name) ∧ c.names.get? other = some id := by
  rw [get?_names_register]
  by_cases hname : name = other
  · simp [hname]
  -- the name that the file had before is free now
  have hfreed : ((c.dropName name).tables.get? file.id).map Table.name = some other
      ↔ c.names.get? other = some file.id := by
    rw [get?_tables_dropName, h.lookup other, Option.map_eq_some_iff]
    constructor
    · rintro ⟨t, ht, htname⟩
      split at ht
      · cases ht
      · exact ⟨t, ht, htname⟩
    · rintro ⟨t, ht, htname⟩
      refine ⟨t, ?_, htname⟩
      rw [if_neg fun hold => hname (((h.get?_names_iff ht name).mp hold).symm.trans htname), ht]
  rw [if_neg hname]
  by_cases hold : c.names.get? other = some file.id
  · rw [if_pos (hfreed.mpr hold), hold]
    constructor
    · rintro ⟨⟩
    · rintro (⟨heq, -⟩ | ⟨⟨hid, -⟩, heq⟩)
      · exact absurd heq.symm hname
      · exact absurd (Option.some.inj heq) hid
  · rw [if_neg (hold ∘ hfreed.mp)]
    constructor
    · intro hother
      refine .inr ⟨⟨?_, Ne.symm hname⟩, hother⟩
      rintro rfl
      exact hold hother
    · rintro (⟨heq, -⟩ | ⟨-, hother⟩)
      · exact absurd heq.symm hname
      · exact hother

theorem Matched.register : (c.register file name key).Matched := by
  refine ⟨h.keyed.register file name key, fun other id => ?_, ?_⟩
  · simp only [h.get?_names_register_iff, h.get?_tables_register_iff, h.lookup]
    constructor
    · rintro (⟨rfl, hid⟩ | ⟨⟨hid, hother⟩, t, ht, rfl⟩)
      · exact ⟨_, .inl ⟨rfl, hid⟩, rfl⟩
      · exact ⟨t, .inr ⟨⟨hid, hother⟩, ht⟩, rfl⟩
    · rintro ⟨t, ⟨rfl, hid⟩ | ⟨⟨hid, hother⟩, ht⟩, rfl⟩
      · exact .inl ⟨rfl, hid⟩
      · exact .inr ⟨⟨hid, hother⟩, t, ht, rfl⟩
  · exact Assoc.nodup_keys_insert (nodup_keys_dropTable (nodup_keys_dropName h.nodup name) file.id) ..

/-- After a registration there are the new table, and those that share neither name nor file with it. -/
theorem Matched.has_register :
    (c.register file name key).Has t ↔
      t = ⟨name, file, key⟩ ∨ c.Has t ∧ ¬ Table.Clashes ⟨name, file, key⟩ t := by
  rw [Has, h.get?_tables_register_iff]
  constructor
  · rintro (⟨rfl, -⟩ | ⟨⟨hid, hname⟩, ht⟩)
    · exact .inl rfl
    · exact .inr ⟨ht, not_or.mpr ⟨Ne.symm hname, hid⟩⟩
  · rintro (rfl | ⟨ht, hclash⟩)
    · exact .inl ⟨rfl, rfl⟩
    · obtain ⟨hname, hid⟩ := not_or.mp hclash
      exact .inr ⟨⟨hid, Ne.symm hname⟩, ht⟩

end Register

/-! ### Several registrations -/

/-- Registers tables one after the other. -/
def registerAll (c : Catalog) (ts : List Table) : Catalog :=
  ts.foldl (fun c t => c.register t.file t.name t.key) c

/-- The table is among those that are registered, and no later one clashes with it. -/
def Survives (ts : List Table) (t : Table) : Prop :=
  ∃ before after, ts = before ++ t :: after ∧ ∀ u ∈ after, ¬ u.Clashes t

theorem survives_nil : ¬ Survives [] t := by
  rintro ⟨before, after, h, -⟩
  simp at h

theorem survives_cons {u : Table} {ts : List Table} :
    Survives (u :: ts) t ↔ Survives ts t ∨ t = u ∧ ∀ v ∈ ts, ¬ v.Clashes t := by
  constructor
  · rintro ⟨before, after, h, hafter⟩
    cases before with
    | nil =>
      obtain ⟨rfl, rfl⟩ := List.cons.inj h
      exact .inr ⟨rfl, hafter⟩
    | cons w before =>
      obtain ⟨-, rfl⟩ := List.cons.inj h
      exact .inl ⟨before, after, rfl, hafter⟩
  · rintro (⟨before, after, rfl, hafter⟩ | ⟨rfl, hafter⟩)
    · exact ⟨u :: before, after, rfl, hafter⟩
    · exact ⟨[], ts, rfl, hafter⟩

/-- Tables that do not clash survive all of them. -/
theorem survives_iff_mem {ts : List Table} (h : ts.Pairwise fun u t => ¬ t.Clashes u) :
    Survives ts t ↔ t ∈ ts := by
  induction ts with
  | nil => simp [survives_nil]
  | cons u ts ih =>
    obtain ⟨hu, hts⟩ := List.pairwise_cons.mp h
    rw [survives_cons, ih hts, List.mem_cons]
    constructor
    · rintro (hmem | ⟨rfl, -⟩)
      · exact .inr hmem
      · exact .inl rfl
    · rintro (rfl | hmem)
      · exact .inr ⟨rfl, hu⟩
      · exact .inl hmem

theorem Matched.registerAll (h : c.Matched) (ts : List Table) : (c.registerAll ts).Matched := by
  induction ts generalizing c with
  | nil => exact h
  | cons t ts ih => exact ih (h.register t.file t.name t.key)

/-- After several registrations there are those tables of theirs that survive, and the ones that clash with none of
them. -/
theorem Matched.has_registerAll (h : c.Matched) (ts : List Table) :
    (c.registerAll ts).Has t ↔ Survives ts t ∨ c.Has t ∧ ∀ u ∈ ts, ¬ u.Clashes t := by
  induction ts generalizing c with
  | nil => simp [Catalog.registerAll, survives_nil]
  | cons u ts ih =>
    rw [Catalog.registerAll, List.foldl_cons, ← Catalog.registerAll, ih (h.register ..),
      h.has_register, survives_cons, List.forall_mem_cons]
    tauto

/-! ### What the lookups tell -/

/-- A catalog whose names and ids match is known by the tables that it has, however they are changed beside their name
and their file. -/
theorem Matched.ext_map (h : c.Matched) (h' : c'.Matched) (change : Table → Table)
    (hsame : ∀ t, (change t).name = t.name ∧ (change t).file.id = t.file.id)
    (heq : ∀ t, c'.Has t ↔ ∃ u, c.Has u ∧ change u = t) :
    (∀ id, c'.table id = (c.table id).map change) ∧ ∀ name, c'.tableId? name = c.tableId? name := by
  have htables : ∀ id, c'.tables.get? id = (c.tables.get? id).map change := by
    intro id
    refine Option.ext fun t => ?_
    rw [has_iff h'.keyed, heq, Option.map_eq_some_iff]
    constructor
    · rintro ⟨⟨u, hu, rfl⟩, hid⟩
      exact ⟨u, (has_iff h.keyed).mpr ⟨hu, (hsame u).2.symm.trans hid⟩, rfl⟩
    · rintro ⟨u, hu, rfl⟩
      obtain ⟨hu, hid⟩ := (has_iff h.keyed).mp hu
      exact ⟨⟨u, hu, rfl⟩, (hsame u).2.trans hid⟩
  refine ⟨fun id => ?_, fun name => Option.ext fun id => ?_⟩
  · rw [table, table, htables]
    cases c.tables.get? id <;> rfl
  · simp only [tableId?, h.lookup, h'.lookup, htables, Option.map_eq_some_iff]
    constructor
    · rintro ⟨-, ⟨u, hu, rfl⟩, rfl⟩
      exact ⟨u, hu, (hsame u).1.symm⟩
    · rintro ⟨u, hu, rfl⟩
      exact ⟨_, ⟨u, hu, rfl⟩, (hsame u).1⟩

/-- A catalog whose names and ids match is known by the tables that it has. -/
theorem Matched.ext (h : c.Matched) (h' : c'.Matched) (heq : ∀ t, c'.Has t ↔ c.Has t) :
    (∀ id, c'.table id = c.table id) ∧ ∀ name, c'.tableId? name = c.tableId? name := by
  obtain ⟨htables, hnames⟩ := h.ext_map h' id (fun _ => ⟨rfl, rfl⟩) fun t => by simp [heq]
  refine ⟨fun id => ?_, hnames⟩
  rw [htables]
  cases c.table id <;> rfl

/-- What the lookups of a catalog tell about each other: names and ids are inverse, and the ids that are listed are
those that some name leads to. -/
structure Consistent (c : Catalog) : Prop where
  tableId?_iff : ∀ name id, c.tableId? name = some id ↔ (c.table id).map Table.name = .ok name
  eq_of_name : ∀ name id id', (c.table id).map Table.name = .ok name →
    (c.table id').map Table.name = .ok name → id = id'
  mem_tableIds_iff : ∀ id, id ∈ c.tableIds ↔ ∃ name, c.tableId? name = some id
  nodup_tableIds : c.tableIds.Nodup

/-- The catalog after a file was registered under a name: what had the name, and what the file was registered as, is
gone, and nothing else. -/
structure Takes (c : Catalog) (file : HeapFile) (name : String) (key : Option String) (c' : Catalog) : Prop where
  tableId?_self : c'.tableId? name = some file.id
  table_self : c'.table file.id = .ok ⟨name, file, key⟩
  table_of_ne : ∀ id, id ≠ file.id →
    c'.table id = if c.tableId? name = some id then .error (.unknownTable id) else c.table id
  tableId?_of_ne : ∀ other, other ≠ name →
    c'.tableId? other = if c.tableId? other = some file.id then none else c.tableId? other

theorem map_name_table_iff {name : String} :
    (c.table id).map Table.name = .ok name ↔ ∃ t, c.tables.get? id = some t ∧ t.name = name := by
  rw [table]
  split
  · next t ht => simp [ht, Except.map]
  · next hnone => simp [hnone, Except.map]

theorem Matched.consistent (h : c.Matched) : c.Consistent := by
  have hiff : ∀ name id, c.tableId? name = some id ↔ (c.table id).map Table.name = .ok name := fun name id => by
    rw [map_name_table_iff, ← h.lookup, tableId?]
  refine ⟨hiff, fun name id id' hid hid' => ?_, fun id => ?_, ?_⟩
  · exact Option.some.inj (((hiff name id).mpr hid).symm.trans ((hiff name id').mpr hid'))
  · rw [tableIds, List.mem_mergeSort, Assoc.mem_keys_iff]
    constructor
    · rintro ⟨t, ht⟩
      exact ⟨t.name, h.name_of_get? ht⟩
    · rintro ⟨name, hname⟩
      obtain ⟨t, ht, -⟩ := (h.lookup _ _).mp hname
      exact ⟨t, ht⟩
  · exact (List.mergeSort_perm ..).nodup_iff.mpr h.nodup

theorem Matched.takes (h : c.Matched) (file : HeapFile) (name : String) (key : Option String) :
    c.Takes file name key (c.register file name key) := by
  refine ⟨?_, ?_, fun id hid => ?_, fun other hother => Option.ext fun id => ?_⟩
  · exact (h.get?_names_register_iff ..).mpr (.inl ⟨rfl, rfl⟩)
  · exact table_eq_ok_iff.mpr ((h.get?_tables_register_iff ..).mpr (.inl ⟨rfl, rfl⟩))
  · rw [table, get?_tables_register, if_neg (Ne.symm hid), tableId?]
    split_ifs
    · rfl
    · rfl
  · rw [tableId?, h.get?_names_register_iff]
    split_ifs with hold
    · constructor
      · rintro (⟨heq, -⟩ | ⟨⟨hid, -⟩, hid'⟩)
        · exact absurd heq hother
        · exact absurd (Option.some.inj (hold.symm.trans hid')) hid
      · rintro ⟨⟩
    · constructor
      · rintro (⟨heq, -⟩ | ⟨-, hid⟩)
        · exact absurd heq hother
        · exact hid
      · intro hid
        refine .inr ⟨⟨?_, hother⟩, hid⟩
        rintro rfl
        exact hold hid

end Catalog

end RelStore
