/-
Schemas that are made from other schemas.

* `Schema.Derived` — what the constructors of schemas and operators make, one from another;
* `Schema.Derived.complete` — no name of such a schema is missing;
* `Schema.Readable` — all that can be asked of its columns is answered;
* `Schema.SideBySide` — the columns of two schemas side by side, and which of them a name leads to;
* `Schema.Derived.lookups` — all of this for every schema that is made so, and looking up its qualified names.

Design notes.  Appending and qualifying check no lengths, so it takes an induction on how a schema was made to know that
its names and types go together.
-/
import RelStore.Proofs.Query.Assembling
import RelStore.Proofs.Schema.Names

namespace RelStore

namespace Schema

variable {s a b c m : Schema}

theorem complete_of_aggregated {field : Nat} {group : Option Nat} {op : AggregateOp}
    (h : a.aggregated field group op = .ok s) : s.Complete := by
  obtain ⟨name, -, hnamed⟩ := bind_eq_ok_iff.mp h
  cases group with
  | none => exact complete_of_withNames hnamed
  | some g =>
    obtain ⟨groupName, -, htyped⟩ := bind_eq_ok_iff.mp hnamed
    obtain ⟨type, -, hnamed⟩ := bind_eq_ok_iff.mp htyped
    exact complete_of_withNames hnamed

/-- What is made by the constructors of schemas, and of operators over other operators, from what they made before. -/
inductive Derived : Schema → Prop
  | withNames {types : List FieldType} {names : List (Option String)} {s : Schema}
    (hs : Schema.withNames types names = .ok s) : Derived s
  | named {fields : List (FieldType × String)} {s : Schema} (hs : Schema.named fields = .ok s) : Derived s
  | anonymous {types : List FieldType} {s : Schema} (hs : Schema.anonymous types = .ok s) : Derived s
  | append {a b s : Schema} (ha : Derived a) (hb : Derived b) (hs : a.append b = .ok s) : Derived s
  | qualify {a s : Schema} {table : Option String} (ha : Derived a) (hs : a.qualify table = .ok s) : Derived s
  | project {fields : List Nat} {child o : Operator} (hchild : Derived child.schema)
    (ho : Operator.project fields child = .ok o) : Derived o.schema
  | join {p : JoinPredicate} {left right o : Operator} (hleft : Derived left.schema) (hright : Derived right.schema)
    (ho : Operator.join p left right = .ok o) : Derived o.schema
  | aggregate {child o : Operator} {field : Nat} {group : Option Nat} {op : AggregateOp} (hchild : Derived child.schema)
    (ho : Operator.aggregate child field group op = .ok o) : Derived o.schema

/-- What is derived is complete. -/
theorem Derived.complete (h : s.Derived) : s.Complete := by
  induction h with
  | withNames hs => exact complete_of_withNames hs
  | named hs => exact complete_of_withNames hs
  | anonymous hs => exact complete_of_anonymous hs
  | append _ _ hs iha ihb => exact iha.append ihb hs
  | qualify _ hs iha => exact iha.qualify hs
  | project _ ho _ =>
    obtain ⟨schema, hschema, rfl⟩ := Operator.project_eq_ok ho
    exact complete_of_project hschema
  | join _ _ ho ihleft ihright =>
    obtain ⟨schema, hschema, rfl⟩ := Operator.join_eq_ok ho
    exact ihleft.append ihright hschema
  | aggregate _ ho _ =>
    obtain ⟨schema, spec, hschema, -, rfl⟩ := Operator.aggregate_eq_ok ho
    exact complete_of_aggregated hschema

/-- All that can be asked of the columns is answered, and no name is missing. -/
structure Readable (s : Schema) : Prop where
  nameAt : ∀ i < s.arity, ∃ n, s.nameAt i = .ok n
  nameAt_error : ∀ i, s.arity ≤ i → s.nameAt i = .error (.indexOutOfRange i)
  columns : ∃ columns, s.columns = .ok columns ∧ columns.map Column.type = s.types
    ∧ ∀ i n, s.nameAt i = .ok n ↔ (columns.map Column.name)[i]? = some n
  /-- A name leads to the first column that has it. -/
  indexOf : ∀ name i, s.indexOf name = .ok i ↔ s.nameAt i = .ok (some name) ∧ ∀ j < i, s.nameAt j ≠ .ok (some name)
  text : ∃ text, s.text = .ok text
  qualify : ∀ table, ∃ q, s.qualify table = .ok q

theorem Complete.readable (h : s.Complete) : s.Readable where
  nameAt := fun i => h.exists_nameAt
  nameAt_error := fun i => nameAt_of_le
  columns := by
    have hlength : s.nameList.length = s.types.length := h.length_nameList
    refine ⟨_, h.columns_eq, map_type_columns (Nat.le_of_eq hlength.symm), fun i n => ?_⟩
    rw [map_name_columns (Nat.le_of_eq hlength), h.nameAt_eq_ok_iff]
  indexOf := fun name i => h.indexOf_eq_ok_iff
  text := ⟨_, by rw [text, h.columns_eq]; rfl⟩
  qualify := fun table => ⟨_, h.qualify_eq table⟩

/-- The columns of two schemas side by side.  A name leads to the column of the first schema that it led to before, or
else to that of the second. -/
structure SideBySide (a b m : Schema) : Prop where
  types : m.types = a.types ++ b.types
  names : ∃ as bs, a.names = some as ∧ b.names = some bs ∧ m.names = some (as ++ bs)
  arity : m.arity = a.arity + b.arity
  width : m.width = a.width + b.width
  left : ∀ name, a.Knows name → ∃ i, a.indexOf name = .ok i ∧ m.indexOf name = .ok i
  right : ∀ name, ¬ a.Knows name → b.Knows name → ∃ i, b.indexOf name = .ok i ∧ m.indexOf name = .ok (a.arity + i)
  unknown : ∀ name e, m.indexOf name = .error e ↔ e = .noSuchField name ∧ ¬ a.Knows name ∧ ¬ b.Knows name

theorem Complete.sideBySide (ha : a.Complete) (hb : b.Complete) (h : a.append b = .ok m) : a.SideBySide b m := by
  obtain ⟨as, bs, has, hbs, hm⟩ := append_eq_ok_iff.mp h
  have hnames : m.names = some (as ++ bs) := by rw [hm]
  refine ⟨by rw [hm], ⟨as, bs, has, hbs, hnames⟩, by rw [hm]; exact List.length_append,
    by rw [hm]; exact totalWidth_append .., fun name hname => ?_, fun name hnot hname => ?_, fun name e => ?_⟩
  · obtain ⟨i, hi⟩ := ha.exists_indexOf hname
    exact ⟨i, hi, indexOf_append_left ha hb h hi⟩
  · obtain ⟨i, hi⟩ := hb.exists_indexOf hname
    exact ⟨i, hi, indexOf_append_right ha hb h hnot hi⟩
  · rw [(ha.append hb h).indexOf_eq_error_iff (by rw [hnames]; rfl), knows_append ha hb h, not_or]

/-- It does not matter which two of three schemas are put together first. -/
theorem append_append {ab bc : Schema} (hab : a.append b = .ok ab) (hbc : b.append c = .ok bc) :
    ab.append c = a.append bc := by
  obtain ⟨as, bs, has, hbs, rfl⟩ := append_eq_ok_iff.mp hab
  obtain ⟨bs', cs, hbs', hcs, rfl⟩ := append_eq_ok_iff.mp hbc
  obtain rfl := Option.some.inj (hbs.symm.trans hbs')
  simp only [append, has, hcs, List.append_assoc]

theorem exists_append (ha : a.names.isSome) (hb : b.names.isSome) : ∃ m, a.append b = .ok m ∧ m.names.isSome := by
  obtain ⟨as, has⟩ := Option.isSome_iff_exists.mp ha
  obtain ⟨bs, hbs⟩ := Option.isSome_iff_exists.mp hb
  exact ⟨_, append_eq_ok_iff.mpr ⟨as, bs, has, hbs, rfl⟩, rfl⟩

/-- Every schema that is derived has a column, and one name for each column if it has names at all, so that nothing asked
of its columns is missing.  Two of them that have names can be put side by side, and three of them in either way.  A name
other than the one that is shown for no name is looked up qualified as it was before. -/
theorem Derived.lookups (ha : a.Derived) :
    a.Complete ∧ a.Readable
      ∧ (∀ b : Schema, b.Derived → a.names.isSome → b.names.isSome → ∃ m, a.append b = .ok m ∧ a.SideBySide b m)
      ∧ (∀ b c : Schema, a.names.isSome → b.names.isSome → c.names.isSome → ∃ ab bc abc,
        a.append b = .ok ab ∧ b.append c = .ok bc ∧ ab.append c = .ok abc ∧ a.append bc = .ok abc)
      ∧ ∀ table name, name ≠ "null" → ∃ q, a.qualify table = .ok q
        ∧ ∀ i, q.indexOf (shownName table ++ "." ++ name) = .ok i ↔ a.indexOf name = .ok i := by
  have hcomplete := ha.complete
  refine ⟨hcomplete, hcomplete.readable, fun b hb hanames hbnames => ?_, fun b c hanames hbnames hcnames => ?_,
    fun table name hname => ?_⟩
  · obtain ⟨m, hm, -⟩ := exists_append hanames hbnames
    exact ⟨m, hm, hcomplete.sideBySide hb.complete hm⟩
  · obtain ⟨ab, hab, habnames⟩ := exists_append hanames hbnames
    obtain ⟨bc, hbc, hbcnames⟩ := exists_append hbnames hcnames
    obtain ⟨abc, habc, -⟩ := exists_append habnames hcnames
    exact ⟨ab, bc, abc, hab, hbc, habc, (append_append hab hbc).symm.trans habc⟩
  · obtain ⟨q, hq⟩ := hcomplete.readable.qualify table
    exact ⟨q, hq, fun i => hcomplete.indexOf_qualify_iff hq hname⟩

/-- Two columns called `x`, and one without a name between them. -/
def twiceX : Schema := ⟨[.int, .str, .int], some [some "x", none, some "x"]⟩

/-- A column that is called as one without a name is shown. -/
def shownNull : Schema := ⟨[.str, .int], some [some "null", some "y"]⟩

/-- The columns are found side by side and qualified. -/
theorem lookups_twiceX :
    twiceX.Derived ∧ shownNull.Derived ∧ "x" ≠ "null"
      ∧ (∃ m, twiceX.append shownNull = .ok m ∧ m.indexOf "x" = .ok 0 ∧ m.indexOf "y" = .ok 4
        ∧ m.indexOf "z" = .error (.noSuchField "z"))
      ∧ ∃ q, twiceX.qualify none = .ok q ∧ q.indexOf ("null" ++ "." ++ "x") = .ok 0 := by
  have hderived : twiceX.Derived :=
    .withNames (show Schema.withNames [.int, .str, .int] [some "x", none, some "x"] = .ok twiceX from rfl)
  have hother : shownNull.Derived := .named (show Schema.named [(.str, "null"), (.int, "y")] = .ok shownNull from rfl)
  obtain ⟨-, -, happend, -, hqualify⟩ := hderived.lookups
  obtain ⟨m, hm, hside⟩ := happend shownNull hother rfl rfl
  obtain ⟨q, hq, hindex⟩ := hqualify none "x" (by decide)
  obtain ⟨i, hi, hx⟩ := hside.left "x" ⟨0, rfl⟩
  obtain ⟨j, hj, hy⟩ := hside.right "y" (mt hderived.complete.knows_iff.mp (by decide)) ⟨1, rfl⟩
  obtain rfl : 0 = i := Except.ok.inj ((show twiceX.indexOf "x" = .ok 0 by decide).symm.trans hi)
  obtain rfl : 1 = j := Except.ok.inj ((show shownNull.indexOf "y" = .ok 1 by decide).symm.trans hj)
  refine ⟨hderived, hother, by decide, ⟨m, hm, hx, hy, (hside.unknown "z" _).mpr ⟨rfl, ?_, ?_⟩⟩, q, hq,
    (hindex 0).mpr (by decide)⟩
  · exact mt hderived.complete.knows_iff.mp (by decide)
  · exact mt hother.complete.knows_iff.mp (by decide)

end Schema

end RelStore
