/-
What a tree of operators hands out has the columns of the tree.

* `Shape.typed` — rows have the columns of their plans, and keys the types of their groups;
* `Plan.Conforming` — fixed rows have the columns of their list;
* `Source.loads_typed` — pages that are loaded have rows of the types of their table;
* `Source.under_pick`, `Row.under_append`, `AggregateSpec.Fits.admits` — the operators make of typed rows what their own
  columns tell, and refuse none;
* `Plan.Fitting.safe_typed` — so a tree of operators always hands out rows with its columns and never fails for a schema,
  and its projections need not look.
-/
import RelStore.Proofs.Aggregate.Results
import RelStore.Proofs.Query.Safety
import RelStore.Proofs.Store.PageTypes

namespace RelStore

open Database (Typed)

variable {named : Prop} {c : Catalog} {schema : Schema} {row : Row}

namespace Source

/-- Where cached pages have the types of their tables, so have the rows on them. -/
theorem loads_typed {f : HeapFile} (hf : c.file f.id = .ok f) :
    Loads (Typed named c) (¬ ·.OfSchema) f fun row => row.Conforms f.schema :=
  fun db hdb _ => ⟨Database.typed_getPage hdb _, fun _ hget => Database.types_of_getPage hdb hf hget,
    fun e hget => Database.raises_getPage _ db e hget⟩

/-- Where the columns of a projection come from those of its child, no row lacks a listed field. -/
theorem under_pick {a b : Schema} {fields : List Nat} (hfields : fields.map (a.types[·]?) = b.types.map some)
    (hrow : row.Under a) : (pick fields b row).Under b ∧ ∀ i ∈ fields, i < row.fields.length := by
  obtain ⟨hpick, htypes⟩ := Plan.filterMap_fields_eq hfields hrow.conforms
  refine ⟨⟨rfl, ?_⟩, fun i hi => ?_⟩
  · rw [Row.Conforms, pick, hpick]
    exact htypes
  · have hsome : a.types[i]? ∈ b.types.map some := by
      rw [← hfields]
      exact List.mem_map_of_mem hi
    obtain ⟨t, -, ht⟩ := List.mem_map.mp hsome
    have hlt := (List.getElem?_eq_some_iff.mp ht.symm).1
    rw [hrow.length_fields]
    exact hlt

/-- What a pass passes on tells of a schema only if storage did. -/
theorem refusal_ofSchema {cause : StorageError} (h : ¬ cause.OfSchema) (kind : Mutation) (n : Nat) :
    ¬ (refusal kind n cause).2.OfSchema := by
  unfold refusal
  split
  · exact absurd trivial h
  · exact h

end Source

theorem Row.under_append {a b : Schema} (hschema : schema.types = a.types ++ b.types) {l r : Row} (hl : l.Under a)
    (hr : r.Under b) : (Row.append schema l r).Under schema := by
  refine ⟨rfl, ?_⟩
  rw [Row.Conforms, Row.append, List.map_append, hl.conforms, hr.conforms, hschema]

theorem Row.under_countRow {kind : Mutation} {n : Nat} (h : countRow kind n = .ok row) : row.Under countSchema := by
  rw [countRow] at h
  split at h
  · cases h
    exact ⟨rfl, rfl⟩
  · cases h

namespace AggregateSpec

variable {spec : AggregateSpec}

theorem typeAt_of_under {i : Nat} {t : FieldType} (ht : schema.types[i]? = some t) (hrow : row.Under schema) :
    (row.fields[i]?).map Field.type = some t := by
  rw [← ht, ← hrow.conforms, List.getElem?_map]

/-- A row with these columns is admitted. -/
theorem Fits.admits (h : spec.Fits schema) (hrow : row.Under schema) : spec.admits row = true := by
  rw [AggregateSpec.admits, Bool.and_eq_true]
  constructor
  · rw [Option.all_eq_true]
    intro g hg
    obtain ⟨f, hf, htype⟩ := Option.map_eq_some_iff.mp (typeAt_of_under (h.group g hg) hrow)
    rw [hf, Option.any_some, htype]
    exact decide_eq_true rfl
  · obtain ⟨f, hf, htype⟩ := Option.map_eq_some_iff.mp (typeAt_of_under h.field hrow)
    rw [hf, Option.any_some, htype]
    cases spec.input <;> decide

/-- The key has the type of the column of the groups, or there is none for want of groups. -/
def Types (spec : AggregateSpec) (key : Option Field) : Prop :=
  key.map Field.type = spec.group.map Prod.snd

theorem Fits.types_key (h : spec.Fits schema) (hrow : row.Under schema) : spec.Types (spec.key row) := by
  rw [Types, key]
  cases hgroup : spec.group with
  | none => rfl
  | some g => exact typeAt_of_under (h.group g hgroup) hrow

/-- A group is handed out under the columns of the result. -/
theorem under_result (hschema : schema.types = spec.resultSchema.types) {key : Option Field} (hkey : spec.Types key)
    (value : Int32) : Row.Under schema ⟨schema, key.toList ++ [.int value], none⟩ := by
  refine ⟨rfl, ?_⟩
  replace hkey : key.map Field.type = spec.group.map Prod.snd := hkey
  rw [Row.Conforms, hschema, AggregateSpec.resultSchema, List.map_append, ← hkey]
  cases key <;> rfl

end AggregateSpec

/-- Rows have the columns of their plans and the types of their files, and keys the types of their groups. -/
def Shape.typed : Shape :=
  ⟨fun p row => row.Under p.schema, fun f row => row.Conforms f.schema, AggregateSpec.Types⟩

namespace Plan

/-- Fixed rows that have the columns of their list. -/
def Conforming : Plan → Prop
  | values schema rows => ∀ row ∈ rows, row.Under schema
  | _ => False

variable {p : Plan}

/-- A tree that fits together hands out rows with its columns, fails for no schema, and its projections find all the
fields that they list. -/
theorem Fitting.safe_typed (h : p.Fitting c Conforming) (hkeyed : c.Keyed) (fuel : Nat) :
    (p.source fuel).Safe (p.checkedSource fuel) (Typed named c) (¬ ·.OfSchema) (Shape.typed.row p)
      (p.Holds Shape.typed) := by
  have hlenient : ∀ e : ExecError, ¬ e.OfSchema → ¬ e.OfSchema := fun _ => id
  induction p with
  | scan target f schema =>
    exact Source.safe_scan hlenient (Source.loads_typed h.1) fun row hrow => ⟨rfl, hrow.trans h.2.symm⟩
  | values schema rows => exact Source.safe_values hlenient h
  | filter predicate child ih => exact (ih h).filter fuel predicate
  | project fields schema child ih => exact (ih h.2).project fun row hrow => Source.under_pick h.1 hrow
  | join predicate schema left right ihl ihr =>
    exact (ihl h.2.1).join (ihr h.2.2) fuel predicate fun l r hl hr => Row.under_append h.1 hl hr
  | insert txn table schema child ih =>
    obtain ⟨⟨f, hf, rfl⟩, htypes, hchild⟩ := h
    refine (ih hchild).change (fun _ _ => Row.under_countRow) (fun row hrow db hdb => ?_) fuel
    have hfields : row.fields.map Field.type = f.schema.types := hrow.conforms.trans htypes
    have hschema : ({ row with schema := f.schema, record := none } : Row).schema.types = f.schema.types := rfl
    refine ⟨Database.typed_insertRow hdb txn table ?_, fun e he n => Source.refusal_ofSchema ?_ .insert n⟩
    · rw [Row.Complete, hschema, ← hfields, List.length_map]
    · exact Database.insertRow_error_of_types hdb hkeyed hf hschema hfields he
  | delete txn child ih =>
    refine (ih h).change (fun _ _ => Row.under_countRow) (fun row _ db hdb => ?_) fuel
    exact ⟨Database.typed_deleteRow hdb txn row,
      fun e he n => Source.refusal_ofSchema (Database.raises_deleteRow txn row db e he) .delete n⟩
  | aggregate spec schema child ih =>
    obtain ⟨hspec, hschema, hchild⟩ := h
    refine (ih hchild).aggregate (K := spec.Types) (fun groups row hgroups hrow => ?_) (fun hnone => ?_) fuel
      fun key value hkey => AggregateSpec.under_result hschema hkey value
    · rw [AggregateSpec.absorb_of_admits (hspec.admits hrow)]
      exact hgroups.insert (hspec.types_key hrow) _
    · rw [AggregateSpec.Types, Option.not_isSome_iff_eq_none.mp (Bool.eq_false_iff.mp hnone)]
      rfl
  | groups number spec => exact h.elim

end Plan

end RelStore
