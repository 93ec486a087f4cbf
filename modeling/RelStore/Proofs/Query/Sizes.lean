/-
How many fields the rows of a tree of operators have, and which tables the tree changes.

* `Plan.located` — the tables that the record ids of a plan's rows point into;
* `Plan.changes` — the tables that a plan changes;
* `Row.Sized`, `Shape.sized` — rows have as many fields as columns, texts within the limit, and a known place;
* `Plan.Filled` — fixed rows have as many fields as columns;
* `Database.Confined` — only certain tables may have changed, while callers hold some buffers;
* `Database.Confined.getPage`, `Database.Confined.run` — one lemma for each thing that operators do to a database;
* `Plan.Fitting.safe_sized` — a tree keeps the sizes of its rows, and changes no other tables.

Design notes.  Fixed rows may have fields of any type, as long as there are enough of them: storage refuses such a row
when it is stored.  Long texts matter to a tree that stores rows, and to no other; so whether texts are within the limit
is a parameter.
-/
import RelStore.Proofs.Aggregate.Results
import RelStore.Proofs.Query.OpenTrees
import RelStore.Proofs.Query.Safety
import RelStore.Proofs.Store.RowChanges

namespace RelStore

open Database (Shared shared_of_sound)

variable {n : Nat} {c : Catalog} {held : List Handle} {texts : Prop} {ids : List TableId} {before db db' : Database}
  {row : Row}

/-! ### Tables -/

namespace Plan

/-- The tables that the record ids of a plan's rows point into. -/
def located : Plan → List TableId
  | scan _ file _ => [file.id]
  | values _ rows => rows.filterMap fun row => row.record.map (·.page.table)
  | filter _ child => child.located
  | project .. | join .. | insert .. | delete .. | aggregate .. | groups .. => []

/-- The tables that a plan changes. -/
def changes : Plan → List TableId
  | insert _ table _ child => table :: child.changes
  | delete _ child => child.located ++ child.changes
  | join _ _ left right => left.changes ++ right.changes
  | filter _ child | project _ _ child | aggregate _ _ child => child.changes
  | scan .. | values .. | groups .. => []

/-- Whether a plan stores rows. -/
def Stores : Plan → Prop
  | insert .. => True
  | join _ _ left right => left.Stores ∨ right.Stores
  | filter _ child | project _ _ child | delete _ child | aggregate _ _ child => child.Stores
  | scan .. | values .. | groups .. => False

end Plan

namespace RowChange

/-- The plan that does a change with every row of another one. -/
def plan (p : Plan) : RowChange → Plan
  | insert txn table schema => .insert txn table schema p
  | delete txn => .delete txn p

/-- The tables that a change of a plan's rows may reach. -/
def reach (p : Plan) : RowChange → List TableId
  | insert _ table _ => [table]
  | delete _ => p.located

end RowChange

/-! ### Rows -/

/-- The row has that many fields.  Its texts are within the limit, if that matters, and its record id points into one of
the tables. -/
structure Row.Sized (texts : Prop) (columns : Nat) (tables : List TableId) (row : Row) : Prop where
  length : row.fields.length = columns
  fits : texts → ∀ f ∈ row.fields, f.Fits
  record : ∀ record ∈ row.record, record.page.table ∈ tables

/-- Rows have as many fields as their plans have columns, and keys are there where there are groups. -/
def Shape.sized (texts : Prop) : Shape :=
  ⟨fun p row => row.Sized texts p.schema.arity p.located, fun f row => row.Sized texts f.schema.arity [f.id],
    fun spec key => key.isSome = spec.group.isSome ∧ (texts → ∀ f ∈ key, f.Fits)⟩

/-- Fixed rows with as many fields as columns. -/
def Plan.Filled (texts : Prop) : Plan → Prop
  | values schema rows => ∀ row ∈ rows, row.fields.length = schema.arity ∧ (texts → ∀ f ∈ row.fields, f.Fits)
  | groups .. => True
  | _ => False

namespace Row

theorem sized_countRow {kind : Mutation} {k : Nat} (h : countRow kind k = .ok row) :
    row.Sized texts countSchema.arity [] := by
  rw [countRow] at h
  split at h
  · cases h
    refine ⟨rfl, fun _ f hf => ?_, fun _ hrecord => absurd hrecord (Option.not_mem_none _)⟩
    rw [List.mem_singleton.mp hf]
    trivial
  · cases h

/-- A row that has all fields of the child has the listed ones. -/
theorem sized_pick {a b : Schema} {fields : List Nat} (hfields : fields.map (a.types[·]?) = b.types.map some)
    {tables : List TableId} (hrow : row.Sized texts a.arity tables) :
    (Source.pick fields b row).Sized texts b.arity [] ∧ ∀ i ∈ fields, i < row.fields.length := by
  have hall : ∀ i ∈ fields, i < row.fields.length := by
    intro i hi
    have hsome : a.types[i]? ∈ b.types.map some := hfields ▸ List.mem_map_of_mem hi
    obtain ⟨t, -, ht⟩ := List.mem_map.mp hsome
    rw [hrow.length]
    exact (List.getElem?_eq_some_iff.mp ht.symm).1
  refine ⟨⟨?_, fun htexts f hf => ?_, nofun⟩, hall⟩
  · have hlength : fields.length = b.arity := by
      have hmap : (b.types.map some).length = b.types.length := List.length_map some
      rw [Schema.arity, ← hmap, ← hfields, List.length_map]
    rw [Source.pick, List.length_filterMap_eq_countP, ← hlength]
    refine List.countP_eq_length.mpr fun i hi => ?_
    rw [List.getElem?_eq_getElem (hall i hi)]
    rfl
  · obtain ⟨i, -, hi⟩ := List.mem_filterMap.mp hf
    exact hrow.fits htexts f (List.mem_of_getElem? hi)

theorem sized_append {a b schema : Schema} (hschema : schema.types = a.types ++ b.types) {left right : List TableId}
    {l r : Row} (hl : l.Sized texts a.arity left) (hr : r.Sized texts b.arity right) :
    (append schema l r).Sized texts schema.arity [] := by
  refine ⟨?_, fun htexts f hf => ?_, nofun⟩
  · have harity : schema.arity = a.arity + b.arity := by
      rw [Schema.arity, hschema, List.length_append, Schema.arity, Schema.arity]
    rw [append, List.length_append, hl.length, hr.length, harity]
  · exact (List.mem_append.mp hf).elim (hl.fits htexts f) (hr.fits htexts f)

end Row

namespace AggregateSpec

variable {spec : AggregateSpec}

/-- A row is taken only if it has the field of the groups. -/
theorem isSome_key (h : spec.admits row = true) : (spec.key row).isSome = spec.group.isSome := by
  rw [key]
  cases hgroup : spec.group with
  | none => rfl
  | some g =>
    rw [admits, hgroup] at h
    exact Option.isSome_of_any (Bool.and_eq_true_iff.mp h).1

/-- A group is handed out with as many fields as the result has columns. -/
theorem sized_result {schema : Schema} (hschema : schema.types = spec.resultSchema.types) {key : Option Field}
    (hkey : key.isSome = spec.group.isSome ∧ (texts → ∀ f ∈ key, f.Fits)) (value : Int32) :
    Row.Sized texts schema.arity [] ⟨schema, key.toList ++ [.int value], none⟩ := by
  refine ⟨?_, fun htexts f hf => ?_, nofun⟩
  · rw [Schema.arity, hschema, resultSchema, List.length_append, List.length_append]
    congr 1
    rw [Option.length_toList, Option.length_toList, Option.isSome_map, hkey.1]
  · rcases List.mem_append.mp hf with hf | hf
    · exact hkey.2 htexts f (Option.mem_toList.mp hf)
    · rw [List.mem_singleton.mp hf]
      trivial

end AggregateSpec

/-- A row of the child can be stored or removed, and touches none but its own table. -/
theorem RowChange.accepts_of_sized (change : RowChange) {p : Plan} (h : (change.plan p).Fitting c (Plan.Filled texts))
    (htexts : (change.plan p).Stores → texts) (hrow : row.Sized texts p.schema.arity p.located) :
    change.Accepts row ∧ ∀ id, change.Touches [row] id → id ∈ change.reach p := by
  cases change with
  | insert txn table schema =>
    obtain ⟨-, htypes, -⟩ := h
    have hcomplete : Row.Complete { row with schema := schema, record := none } :=
      hrow.length.trans (congrArg List.length htypes)
    exact ⟨⟨hcomplete, hrow.fits (htexts trivial)⟩, fun id hid => List.mem_singleton.mpr hid⟩
  | delete txn =>
    refine ⟨trivial, ?_⟩
    rintro id ⟨row', hrow', record, hrecord, rfl⟩
    rw [List.mem_singleton.mp hrow'] at hrecord
    exact hrow.record record hrecord

/-- The texts of keys are within the limit, if that matters. -/
def Groups.KeysFit (texts : Prop) (groups : Groups) : Prop :=
  texts → groups.Keyed fun key => ∀ f ∈ key, f.Fits

/-- A snapshot has keys where there are groups. -/
theorem Groups.isSome_of_mem_snapshot {groups : Groups} {grouped : Bool} :
    ∀ entry ∈ Source.snapshot grouped groups, entry.1.isSome = grouped := by
  intro entry hentry
  rw [Source.snapshot] at hentry
  split at hentry
  · next hgrouped =>
    rw [hgrouped]
    exact (List.mem_filter.mp hentry).2
  · next hgrouped =>
    rw [List.mem_singleton.mp hentry]
    exact (Bool.eq_false_iff.mpr hgrouped).symm

/-! ### Databases -/

namespace Store

variable {s : Store} {cells : Page.Cells}

theorem getElem?_of_page {page : PageId} (h : s.page c page = .ok cells) :
    (s page.table)[page.number]? = some (.ok cells) := by
  rw [Store.page] at h
  split at h
  · cases h
  · split at h
    · next hget =>
      rw [hget, h]
    · cases h

/-- A page that is shown has what holds of every page. -/
theorem Each.of_page {P : Except StorageError Page.Cells → Prop} (h : s.Each P) {page : PageId}
    (hpage : s.page c page = .ok cells) : P (.ok cells) :=
  h _ _ (List.mem_of_getElem? (getElem?_of_page hpage))

end Store

/-- The keys of the shared aggregates have texts within the limit, if that matters. -/
def Database.KeysFit (texts : Prop) (db : Database) : Prop :=
  ∀ number, ((db.running.get? number).getD {}).KeysFit texts

/-- Only shared aggregates matter. -/
theorem Database.KeysFit.congr (h : db.KeysFit texts) (hrunning : db'.running = db.running) : db'.KeysFit texts := by
  rw [Database.KeysFit, hrunning]
  exact h

/-- Callers hold the buffers `held`.  Texts in tables are within the limit, no aggregate was fed, and no table has
changed but the given ones. -/
structure Database.Confined (n : Nat) (c : Catalog) (held : List Handle) (ids : List TableId) (before db : Database) :
    Prop where
  pool : Pool.Sound n c ⟨db, held⟩
  fits : db.store.Each Fits
  running : db.running = before.running
  store : ∀ id, id ∉ ids → db.store id = before.store id

namespace Database.Confined

theorem refl (ids : List TableId) (h : Pool.Sound n c ⟨db, held⟩) (hfits : db.store.Each Fits) :
    Confined n c held ids db db :=
  ⟨h, hfits, rfl, fun _ _ => rfl⟩

variable (h : Confined n c held ids before db)

include h

theorem mono {ids' : List TableId} (hids : ∀ id ∈ ids, id ∈ ids') : Confined n c held ids' before db :=
  ⟨h.pool, h.fits, h.running, fun id hid => h.store id fun hmem => hid (hids id hmem)⟩

theorem trans {db' : Database} (h' : Confined n c held ids db db') : Confined n c held ids before db' :=
  ⟨h'.pool, h'.fits, h'.running.trans h.running, fun id hid => (h'.store id hid).trans (h.store id hid)⟩

/-- Whether or not a page is refused, no table changes. -/
theorem getPage (page : PageId) :
    Confined n c held ids before ((Database.getPage page).outcome db).2
      ∧ ((Database.getPage page).outcome db).2.store = db.store := by
  have hquiet : PoolCall.Quiet (.cache (.getPage page)) := trivial
  have hstep : Pool.step ⟨db, held⟩ (.cache (.getPage page)) = ⟨((Database.getPage page).outcome db).2, held⟩ := by
    simp only [Pool.step, CacheCall.run, Fallible.snd_outcome_map]
  have hshared := (shared_of_sound h.pool).step hquiet
  have hrunning := Pool.running_step h.pool hquiet
  rw [hstep] at hshared hrunning
  obtain ⟨hstore, hfits⟩ := hshared.each_fits h.fits
  exact ⟨⟨hshared.pool, hfits, hrunning.trans h.running, fun id hid => (congrFun hstore id).trans (h.store id hid)⟩,
    hstore⟩

/-- The rows of a page have its columns, and stand at its places. -/
theorem sized_getPage {f : HeapFile} (hf : c.file f.id = .ok f) {k : Nat} {b : Buffer}
    (hget : ((Database.getPage ⟨f.id, k⟩).outcome db).1 = .ok b) :
    ∀ row ∈ b.page.rows, row.Sized texts f.schema.arity [f.id] := by
  obtain ⟨hafter, -⟩ := h.getPage ⟨f.id, k⟩
  have hsound : ((Database.getPage ⟨f.id, k⟩).outcome db).2.Sound := hafter.pool.sound
  have hcatalog : ((Database.getPage ⟨f.id, k⟩).outcome db).2.catalog = c := hafter.pool.catalog
  have hb := buffer?_of_getPage h.pool.sound.coherent hget
  obtain ⟨f', hf', hbacked⟩ := hsound.backed hb
  rw [hcatalog] at hf'
  cases hf.symm.trans hf'
  intro row hrow
  obtain ⟨slot, hslot, rfl⟩ := List.mem_filterMap.mp hrow
  obtain ⟨i, hi⟩ := List.mem_iff_getElem?.mp hslot
  refine ⟨?_, fun _ => ?_, fun record hrecord => ?_⟩
  · rw [Schema.arity, ← hbacked.schema, ← hbacked.wellFormed.types hi, List.length_map]
  · have hmem : some row.fields ∈ b.page.cells := List.mem_map.mpr ⟨some row, hslot, rfl⟩
    have hcut : Fits (.ok b.page.cells) := Store.Each.of_page hafter.fits (hsound.page_of_buffer? hb)
    exact Page.cutRow_eq_self_iff.mp (Page.cutRow_eq_of_mem (Except.ok.inj hcut) hmem)
  · rw [hbacked.wellFormed.record hi] at hrecord
    obtain rfl := Option.mem_some_iff.mp hrecord
    rw [PageCache.id_of_buffer? hsound.coherent hb]
    exact List.mem_singleton_self _

/-- A row that is stored or removed changes no table but its own. -/
theorem run {change : RowChange} (haccepts : change.Accepts row) (htouches : ∀ id, change.Touches [row] id → id ∈ ids) :
    Confined n c held ids before ((change.run row).outcome db).2 := by
  obtain ⟨r, db', hout, hsound, hfits, hrunning, hdoes⟩ := RowChange.outcome_run h.pool h.fits haccepts
  rw [hout]
  refine ⟨hsound, hfits, hrunning.trans h.running, fun id hid => Eq.trans ?_ (h.store id hid)⟩
  have hnot : ¬ change.Touches [row] id := fun hid' => hid (htouches id hid')
  cases r with
  | ok u =>
    have hstore : db'.store = (change.onStore c db.store row).2 := by rw [hdoes]
    rw [hstore]
    exact RowChange.onStore_of_not_touches hnot
  | error cause => exact hdoes.2.2 id hnot

end Database.Confined

/-! ### Trees -/

namespace Source

/-- The rows of a table have its columns. -/
theorem loads_sized {f : HeapFile} (hf : c.file f.id = .ok f) :
    Loads (Database.Confined n c held ids before) (fun _ => True) f fun row => row.Sized texts f.schema.arity [f.id] :=
  fun _ hdb k => ⟨(hdb.getPage ⟨f.id, k⟩).1, fun _ hget => hdb.sized_getPage hf hget, fun _ _ => trivial⟩

end Source

namespace Plan

variable {p : Plan}

/-- A tree that fits together keeps the sizes of its rows, and changes no tables but its own. -/
theorem Fitting.safe_sized (h : p.Fitting c (Filled texts)) (hchanges : ∀ id ∈ p.changes, id ∈ ids)
    (htexts : p.Stores → texts) (hkeys : before.KeysFit texts) (fuel : Nat) :
    (p.source fuel).Safe (p.source fuel) (Database.Confined n c held ids before) (fun _ => True)
      ((Shape.sized texts).row p) (p.Holds (Shape.sized texts)) := by
  have hlenient : ∀ e : ExecError, ¬ e.OfSchema → True := fun _ _ => trivial
  induction p with
  | scan target f schema =>
    refine Source.safe_scan hlenient (Source.loads_sized h.1) fun row hrow => ?_
    exact ⟨hrow.length.trans (congrArg List.length h.2).symm, hrow.fits, hrow.record⟩
  | values schema rows =>
    refine Source.safe_values hlenient fun row hrow => ⟨(h row hrow).1, (h row hrow).2, fun record hrecord => ?_⟩
    exact List.mem_filterMap.mpr ⟨row, hrow, by rw [hrecord]; rfl⟩
  | filter predicate child ih => exact (ih h hchanges htexts).filter fuel predicate
  | project fields schema child ih =>
    exact ((ih h.2 hchanges htexts).project fun row hrow => Row.sized_pick h.1 hrow).self
  | join predicate schema left right ihl ihr =>
    have hl := ihl h.2.1 (fun id hid => hchanges id (List.mem_append_left _ hid)) fun hs => htexts (.inl hs)
    have hr := ihr h.2.2 (fun id hid => hchanges id (List.mem_append_right _ hid)) fun hs => htexts (.inr hs)
    exact hl.join hr fuel predicate fun l r hl hr => Row.sized_append h.1 hl hr
  | insert txn table schema child ih =>
    refine (ih h.2.2 (fun id hid => hchanges id (List.mem_cons_of_mem _ hid)) fun _ => htexts trivial).change
      (fun _ _ => Row.sized_countRow) (fun row hrow db hdb => ⟨?_, fun _ _ _ => trivial⟩) fuel
    obtain ⟨haccepts, htouches⟩ := RowChange.accepts_of_sized (.insert txn table schema) h htexts hrow
    refine hdb.run haccepts fun id hid => hchanges id ?_
    rw [List.mem_singleton.mp (htouches id hid)]
    exact List.mem_cons_self
  | delete txn child ih =>
    refine (ih h (fun id hid => hchanges id (List.mem_append_right _ hid)) htexts).change
      (fun _ _ => Row.sized_countRow) (fun row hrow db hdb => ⟨?_, fun _ _ _ => trivial⟩) fuel
    obtain ⟨haccepts, htouches⟩ := RowChange.accepts_of_sized (.delete txn) h htexts hrow
    exact hdb.run haccepts fun id hid => hchanges id (List.mem_append_left _ (htouches id hid))
  | aggregate spec schema child ih =>
    obtain ⟨hspec, hschema, hchild⟩ := h
    refine (ih hchild hchanges htexts).aggregate (K := (Shape.sized texts).key spec) (fun groups row hgroups hrow => ?_)
      (fun hnone => ⟨hnone.symm, fun _ => nofun⟩) fuel fun _ value hkey => AggregateSpec.sized_result hschema hkey value
    by_cases hadmits : spec.admits row = true
    · rw [AggregateSpec.absorb_of_admits hadmits]
      refine hgroups.insert ⟨AggregateSpec.isSome_key hadmits, fun ht f hf => hrow.fits ht f ?_⟩ _
      obtain ⟨g, -, hg⟩ := Option.bind_eq_some_iff.mp hf
      exact List.mem_of_getElem? hg
    · obtain ⟨e, he⟩ := AggregateSpec.absorb_of_not_admits hadmits
      rw [he]
      trivial
  | groups number spec =>
    refine Source.safe_groups (K := (Shape.sized texts).key spec)
      (fun key value hkey => AggregateSpec.sized_result rfl hkey value) hlenient fun db hdb => ?_
    rw [hdb.running]
    refine fun entry hentry => ⟨Groups.isSome_of_mem_snapshot entry hentry, fun ht => ?_⟩
    exact (hkeys number ht).snapshot (fun _ => nofun) entry hentry

end Plan

end RelStore
