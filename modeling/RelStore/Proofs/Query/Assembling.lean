/-
Operators that are put together from others.

* `Operator.scan_eq_ok`, `Operator.aggregate_eq_ok` and their like — what each constructor makes, where it refuses nothing;
* `Schema.fits_of_ofColumns`, `Schema.types_aggregated` — the columns of an aggregate, which are told in two places;
* `Operator.Assembled` — what the constructors make of operators that are there, and of leaves;
* `Operator.Fits` — the plan of an operator fits together, and what its operators keep has the right shape;
* `Operator.Assembled.fits` — what is assembled from operators that fit does so too;
* `Plan.uses`, `Plan.Fitting.congr` — other tables are of no concern to a plan.

Design notes.  Nothing is said here of what a leaf is, nor of the shape of rows.  An operator is put together before it is
opened, so it keeps nothing yet but what its parts keep.
-/
import RelStore.Proofs.Query.Meaning
import RelStore.Proofs.Query.Safety
import RelStore.Proofs.Store.PageTypes

namespace RelStore

open Running (Keeps)

/-! ### What constructors make -/

theorem Catalog.file_of_table {c : Catalog} {id : TableId} {t : Table} (ht : c.table id = .ok t) : c.file id = .ok t.file := by
  rw [Catalog.file, ht]
  rfl

namespace Operator

variable {c : Catalog} {o child left right : Operator} {id : TableId}

theorem scan_eq_ok {id : TableId} {label : Option String} (h : Operator.scan c id label = .ok o) :
    ∃ t schema, c.table id = .ok t ∧ t.file.schema.qualify label = .ok schema
      ∧ o = ofPlan (.scan ⟨id, t.name, label⟩ t.file schema) := by
  rw [Operator.scan] at h
  split at h
  · cases h
  · next t ht =>
    split at h
    · cases h
    · next schema hschema =>
      cases h
      exact ⟨t, schema, ht, hschema, rfl⟩

theorem project_eq_ok {fields : List Nat} (h : Operator.project fields child = .ok o) :
    ∃ schema, child.schema.project fields = .ok schema
      ∧ o = ⟨.project fields schema child.plan, Running.closed child.state⟩ := by
  rw [Operator.project] at h
  split at h
  · cases h
  · next schema hschema =>
    cases h
    exact ⟨schema, hschema, rfl⟩

theorem join_eq_ok {q : JoinPredicate} (h : Operator.join q left right = .ok o) :
    ∃ schema, left.schema.append right.schema = .ok schema
      ∧ o = ⟨.join q schema left.plan right.plan,
        Running.closed (⟨false, none, left.state, right.state⟩ : JoinState _ _)⟩ := by
  rw [Operator.join] at h
  split at h
  · cases h
  · next schema hschema =>
    cases h
    exact ⟨schema, hschema, rfl⟩

theorem insert_eq_ok {txn : TxnId} (h : Operator.insert c txn child id = .ok o) :
    ∃ t, c.table id = .ok t ∧ child.schema.types = t.file.schema.types
      ∧ o = ⟨.insert txn id t.file.schema child.plan,
        Running.closed (⟨0, false, child.state⟩ : ChangeState _)⟩ := by
  rw [Operator.insert] at h
  cases ht : c.table id with
  | error e =>
    rw [ht] at h
    cases h
  | ok t =>
    rw [ht] at h
    by_cases hagrees : child.schema.agrees t.file.schema = true
    · refine ⟨t, rfl, Schema.agrees_iff.mp hagrees, ?_⟩
      exact (Except.ok.inj ((if_pos hagrees).symm.trans h)).symm
    · cases (if_neg hagrees).symm.trans h

theorem aggregate_eq_ok {field : Nat} {group : Option Nat} {op : AggregateOp}
    (h : Operator.aggregate child field group op = .ok o) :
    ∃ schema spec, child.schema.aggregated field group op = .ok schema
      ∧ AggregateSpec.ofColumns child.schema field group op = .ok spec
      ∧ o = ⟨.aggregate spec schema child.plan, Running.closed (⟨none, child.state⟩ : AggregateState _)⟩ := by
  rw [Operator.aggregate] at h
  split at h
  · cases h
  · cases h
  · next schema spec hschema hspec =>
    split at h
    · cases h
    · cases h
      exact ⟨schema, spec, hschema, hspec, rfl⟩

end Operator

/-! ### Columns of aggregates -/

namespace Schema

variable {s schema : Schema} {field : Nat} {group : Option Nat} {op : AggregateOp}

theorem types_named {fields : List (FieldType × String)} (h : Schema.named fields = .ok schema) :
    schema.types = fields.map (·.1) := by
  obtain ⟨-, -, rfl⟩ := withNames_eq_ok_iff.mp h
  rfl

/-- What is aggregated, and by what, is found among the columns. -/
theorem fits_of_ofColumns {spec : AggregateSpec} (h : AggregateSpec.ofColumns s field group op = .ok spec) :
    spec.Fits s ∧ spec.group.map Prod.fst = group := by
  cases group with
  | none =>
    obtain ⟨t, hfield, hspec⟩ := bind_eq_ok_iff.mp h
    cases hspec
    exact ⟨⟨typeAt_eq_ok_iff.mp hfield, nofun⟩, rfl⟩
  | some g =>
    obtain ⟨u, hgroup, hspec⟩ := bind_eq_ok_iff.mp h
    obtain ⟨t, hfield, hspec⟩ := bind_eq_ok_iff.mp hspec
    cases hspec
    refine ⟨⟨typeAt_eq_ok_iff.mp hfield, fun g' hg' => ?_⟩, rfl⟩
    obtain rfl := Option.mem_some_iff.mp hg'
    exact typeAt_eq_ok_iff.mp hgroup

/-- The columns of an aggregate are told in two places, which agree. -/
theorem types_aggregated {spec : AggregateSpec} (h : s.aggregated field group op = .ok schema)
    (hspec : AggregateSpec.ofColumns s field group op = .ok spec) : schema.types = spec.resultSchema.types := by
  obtain ⟨hfits, hgroup⟩ := fits_of_ofColumns hspec
  obtain ⟨name, -, hnamed⟩ := bind_eq_ok_iff.mp h
  cases group with
  | none =>
    rw [AggregateSpec.resultSchema, Option.map_eq_none_iff.mp hgroup]
    exact types_named hnamed
  | some g =>
    obtain ⟨⟨g', u⟩, hsome, rfl⟩ := Option.map_eq_some_iff.mp hgroup
    obtain ⟨gname, -, htyped⟩ := bind_eq_ok_iff.mp hnamed
    obtain ⟨t, htype, hnamed⟩ := bind_eq_ok_iff.mp htyped
    obtain rfl := Option.some.inj ((hfits.group _ hsome).symm.trans (typeAt_eq_ok_iff.mp htype))
    rw [AggregateSpec.resultSchema, hsome]
    exact types_named hnamed

end Schema

/-! ### Assembling -/

/-- What a constructor makes of the operators that are there, or of a leaf. -/
inductive Operator.Assembled (c : Catalog) (Leaf : Plan → Prop) (parts : List Operator) : Operator → Prop
  | scan {id : TableId} {label : Option String} {o : Operator} (ho : Operator.scan c id label = .ok o) :
    Assembled c Leaf parts o
  | scanNamed {id : TableId} {o : Operator} (ho : Operator.scanNamed c id = .ok o) : Assembled c Leaf parts o
  | values {schema : Schema} {rows : List Row} (hleaf : Leaf (.values schema rows)) :
    Assembled c Leaf parts (Operator.values schema rows)
  | groups {number : Nat} {spec : AggregateSpec} (hleaf : Leaf (.groups number spec)) :
    Assembled c Leaf parts (Operator.groups number spec)
  | filter (p : Predicate) {child : Operator} (hchild : child ∈ parts) :
    Assembled c Leaf parts (Operator.filter p child)
  | project {fields : List Nat} {child o : Operator} (hchild : child ∈ parts)
    (ho : Operator.project fields child = .ok o) : Assembled c Leaf parts o
  | join {p : JoinPredicate} {left right o : Operator} (hleft : left ∈ parts) (hright : right ∈ parts)
    (ho : Operator.join p left right = .ok o) : Assembled c Leaf parts o
  | insert {txn : TxnId} {child o : Operator} {id : TableId} (hchild : child ∈ parts)
    (ho : Operator.insert c txn child id = .ok o) : Assembled c Leaf parts o
  | delete (txn : TxnId) {child : Operator} (hchild : child ∈ parts) :
    Assembled c Leaf parts (Operator.delete txn child)
  | aggregate {child o : Operator} {field : Nat} {group : Option Nat} {op : AggregateOp} (hchild : child ∈ parts)
    (ho : Operator.aggregate child field group op = .ok o) : Assembled c Leaf parts o

/-- The plan of an operator fits together, and what its operators keep has the right shape. -/
structure Operator.Fits (c : Catalog) (Leaf : Plan → Prop) (shape : Shape) (o : Operator) : Prop where
  plan : o.plan.Fitting c Leaf
  state : o.state.Keeps (shape.row o.plan) (o.plan.Holds shape)

namespace Operator

variable {c : Catalog} {Leaf : Plan → Prop} {shape : Shape} {parts : List Operator} {o : Operator} {id : TableId}

theorem fits_of_scan (hkeyed : c.Keyed) {label : Option String} (ho : Operator.scan c id label = .ok o) :
    o.Fits c Leaf shape := by
  obtain ⟨t, schema, ht, hschema, rfl⟩ := scan_eq_ok ho
  have hf := Catalog.file_of_table ht
  refine ⟨⟨?_, Schema.types_qualify hschema⟩, Running.keeps_closed nofun⟩
  rw [hkeyed.id_of_file hf]
  exact hf

/-- What is assembled from operators that fit together fits together. -/
theorem Assembled.fits (ho : Assembled c Leaf parts o) (hkeyed : c.Keyed)
    (hparts : ∀ part ∈ parts, part.Fits c Leaf shape) : o.Fits c Leaf shape := by
  cases ho with
  | scan ho => exact fits_of_scan hkeyed ho
  | @scanNamed id o ho =>
    cases ht : c.table id with
    | error e =>
      rw [Operator.scanNamed, ht] at ho
      cases ho
    | ok t =>
      rw [Operator.scanNamed, ht] at ho
      exact fits_of_scan hkeyed ho
  | values hleaf => exact ⟨hleaf, Running.keeps_closed nofun⟩
  | groups hleaf => exact ⟨hleaf, Running.keeps_closed nofun⟩
  | filter p hchild => exact ⟨(hparts _ hchild).plan, Running.keeps_closed (hparts _ hchild).state⟩
  | project hchild ho =>
    obtain ⟨schema, hschema, rfl⟩ := project_eq_ok ho
    exact ⟨⟨Schema.types_project hschema, (hparts _ hchild).plan⟩, Running.keeps_closed (hparts _ hchild).state⟩
  | join hleft hright ho =>
    obtain ⟨schema, hschema, rfl⟩ := join_eq_ok ho
    exact ⟨⟨Schema.types_append hschema, (hparts _ hleft).plan, (hparts _ hright).plan⟩,
      Running.keeps_closed ⟨nofun, (hparts _ hleft).state, (hparts _ hright).state⟩⟩
  | insert hchild ho =>
    obtain ⟨t, ht, htypes, rfl⟩ := insert_eq_ok ho
    exact ⟨⟨⟨t.file, Catalog.file_of_table ht, rfl⟩, htypes, (hparts _ hchild).plan⟩,
      Running.keeps_closed (hparts _ hchild).state⟩
  | delete txn hchild => exact ⟨(hparts _ hchild).plan, Running.keeps_closed (hparts _ hchild).state⟩
  | aggregate hchild ho =>
    obtain ⟨schema, spec, hschema, hspec, rfl⟩ := aggregate_eq_ok ho
    exact ⟨⟨(Schema.fits_of_ofColumns hspec).1, Schema.types_aggregated hschema hspec, (hparts _ hchild).plan⟩,
      Running.keeps_closed ⟨nofun, (hparts _ hchild).state⟩⟩

end Operator

/-! ### Tables in use -/

namespace Plan

variable {c c' : Catalog} {Leaf : Plan → Prop} {p : Plan}

/-- The tables that a plan reads, or that it stores rows in. -/
def uses : Plan → List TableId
  | scan _ file _ => [file.id]
  | insert _ table _ child => table :: child.uses
  | join _ _ left right => left.uses ++ right.uses
  | filter _ child | project _ _ child | delete _ child | aggregate _ _ child => child.uses
  | values .. | groups .. => []

/-- Other tables are of no concern to a plan. -/
theorem Fitting.congr (h : p.Fitting c Leaf) (hsame : ∀ id ∈ p.uses, c'.file id = c.file id) : p.Fitting c' Leaf := by
  induction p with
  | scan target file schema => exact ⟨(hsame _ (List.mem_singleton_self _)).trans h.1, h.2⟩
  | values schema rows => exact h
  | filter p child ih => exact ih h hsame
  | project fields schema child ih => exact ⟨h.1, ih h.2 hsame⟩
  | join p schema left right ihl ihr =>
    obtain ⟨hschema, hleft, hright⟩ := h
    exact ⟨hschema, ihl hleft fun id hid => hsame id (List.mem_append_left _ hid),
      ihr hright fun id hid => hsame id (List.mem_append_right _ hid)⟩
  | insert txn table schema child ih =>
    obtain ⟨⟨f, hf, hschema⟩, htypes, hchild⟩ := h
    exact ⟨⟨f, (hsame table List.mem_cons_self).trans hf, hschema⟩, htypes,
      ih hchild fun id hid => hsame id (List.mem_cons_of_mem _ hid)⟩
  | delete txn child ih => exact ih h hsame
  | aggregate spec schema child ih => exact ⟨h.1, h.2.1, ih h.2.2 hsame⟩
  | groups number spec => exact h

end Plan

end RelStore
