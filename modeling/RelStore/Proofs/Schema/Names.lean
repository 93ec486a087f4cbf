/-
The names of the columns of a schema.

* `Schema.Complete` — a schema has a column, and its name list, if there is one, has one name for each of them;
* `Schema.Complete.nameAt_eq_ok_iff`, `Schema.Complete.columns_eq` — so no name is missing;
* `Schema.Complete.indexOf_eq_ok_iff`, `Schema.Complete.indexOf_eq_error_iff` — a name is looked up by the first column that
  has it;
* `Schema.append_eq_ok_iff`, `Schema.nameList_append` — the columns of two schemas side by side;
* `Schema.Complete.qualify_eq`, `Schema.Complete.indexOf_qualify_iff` — qualified names, and looking them up.

Design notes.  Whether there is a name list at all shows only when a name is looked up; for all else a schema without
one has unset names (`Schema.nameList`).  Names are looked up through `Schema.nameAt`, so what is known of the single
names of a schema carries over to looking them up.
-/
import Mathlib.Data.List.Basic
import RelStore.Schema

namespace RelStore

/-- What comes of two steps, the second of which uses what came of the first. -/
theorem bind_eq_ok_iff {ε α β : Type} {x : Except ε α} {f : α → Except ε β} {r : β} :
    x >>= f = .ok r ↔ ∃ y, x = .ok y ∧ f y = .ok r := by
  cases x with
  | ok y => exact ⟨fun h => ⟨y, rfl, h⟩, fun ⟨y', hy, h⟩ => by cases hy; exact h⟩
  | error e => exact ⟨nofun, fun ⟨y, hy, _⟩ => by cases hy⟩

namespace Schema

variable {s a b m q : Schema} {i : Nat} {name : String} {n : Option String} {table : Option String}

theorem withNames_eq_ok_iff {types : List FieldType} {names : List (Option String)} :
    withNames types names = .ok s ↔ types ≠ [] ∧ types.length = names.length ∧ s = ⟨types, some names⟩ := by
  rw [withNames]
  split
  · next hnil => exact ⟨nofun, fun h => absurd hnil h.1⟩
  · next hne =>
    split
    · next hlength => exact ⟨nofun, fun h => absurd h.2.1 hlength⟩
    · next hlength =>
      exact ⟨fun h => ⟨hne, Decidable.not_not.mp hlength, (Except.ok.inj h).symm⟩, fun h => congrArg Except.ok h.2.2.symm⟩

theorem typeAt_eq_ok_iff {t : FieldType} : s.typeAt i = .ok t ↔ s.types[i]? = some t := by
  rw [typeAt]
  split
  · next t' htype => rw [htype, Except.ok.injEq, Option.some.injEq]
  · next hnone =>
    rw [hnone]
    exact ⟨nofun, nofun⟩

/-! ### Complete schemas -/

/-- There is a column, and if there is a name list, it has one name for each column. -/
structure Complete (s : Schema) : Prop where
  nonempty : s.types ≠ []
  length_names : ∀ names, s.names = some names → names.length = s.types.length

theorem complete_of_withNames {types : List FieldType} {names : List (Option String)}
    (h : withNames types names = .ok s) : s.Complete := by
  obtain ⟨hne, hlength, rfl⟩ := withNames_eq_ok_iff.mp h
  refine ⟨hne, fun names' hnames => ?_⟩
  obtain rfl := Option.some.inj hnames
  exact hlength.symm

theorem complete_of_anonymous {types : List FieldType} (h : anonymous types = .ok s) : s.Complete := by
  rw [anonymous] at h
  split at h
  · cases h
  · next hne =>
    cases h
    exact ⟨hne, nofun⟩

/-- Listed columns have names, or they could not be listed. -/
theorem complete_of_project {fields : List Nat} (h : a.project fields = .ok s) : s.Complete := by
  obtain ⟨columns, -, hnames⟩ := bind_eq_ok_iff.mp h
  exact complete_of_withNames hnames

/-- The names of the columns, which are unset if there is no name list. -/
def nameList (s : Schema) : List (Option String) :=
  s.names.getD (List.replicate s.arity none)

/-- Some column has the name. -/
def Knows (s : Schema) (name : String) : Prop :=
  ∃ i, s.nameAt i = .ok (some name)

theorem nameAt_of_le (hi : s.arity ≤ i) : s.nameAt i = .error (.indexOutOfRange i) := by
  rw [nameAt, if_pos hi]

theorem lt_arity_of_nameAt (h : s.nameAt i = .ok n) : i < s.arity :=
  Nat.lt_of_not_le fun hle => by rw [nameAt_of_le hle] at h; cases h

theorem map_type_columns {types : List FieldType} {names : List (Option String)} (h : types.length ≤ names.length) :
    (types.zipWith Column.mk names).map Column.type = types :=
  calc (types.zipWith Column.mk names).map Column.type
      = types.zipWith (fun t _ => t) names := List.map_zipWith
    _ = (types.zip names).map Prod.fst := (List.map_zip_eq_zipWith (f := Prod.fst)).symm
    _ = types := List.map_fst_zip h

theorem map_name_columns {types : List FieldType} {names : List (Option String)} (h : names.length ≤ types.length) :
    (types.zipWith Column.mk names).map Column.name = names :=
  calc (types.zipWith Column.mk names).map Column.name
      = types.zipWith (fun _ n => n) names := List.map_zipWith
    _ = (types.zip names).map Prod.snd := (List.map_zip_eq_zipWith (f := Prod.snd)).symm
    _ = names := List.map_snd_zip h

namespace Complete

theorem length_nameList (h : s.Complete) : s.nameList.length = s.arity := by
  rw [nameList]
  cases hnames : s.names with
  | none => exact List.length_replicate
  | some names => exact h.length_names names hnames

/-- The names are found one by one. -/
theorem nameAt_eq_ok_iff (h : s.Complete) : s.nameAt i = .ok n ↔ s.nameList[i]? = some n := by
  by_cases hi : s.arity ≤ i
  · rw [nameAt_of_le hi, List.getElem?_eq_none (by rw [h.length_nameList]; exact hi)]
    exact ⟨nofun, nofun⟩
  · rw [nameAt, if_neg hi, nameList]
    cases hnames : s.names with
    | none =>
      rw [Option.getD_none, List.getElem?_replicate, if_pos (Nat.lt_of_not_le hi)]
      exact ⟨fun h => congrArg some (Except.ok.inj h), fun h => congrArg Except.ok (Option.some.inj h)⟩
    | some names =>
      have hlt : i < names.length := by
        rw [h.length_names names hnames]
        exact Nat.lt_of_not_le hi
      simp only [Option.getD_some, List.getElem?_eq_getElem hlt, Except.ok.injEq, Option.some.injEq]

theorem exists_nameAt (h : s.Complete) (hi : i < s.arity) : ∃ n, s.nameAt i = .ok n :=
  ⟨_, h.nameAt_eq_ok_iff.mpr (List.getElem?_eq_getElem (by rw [h.length_nameList]; exact hi))⟩

/-- All columns are found. -/
theorem columns_eq (h : s.Complete) : s.columns = .ok (s.types.zipWith Column.mk s.nameList) := by
  rw [columns, nameList]
  cases hnames : s.names with
  | none =>
    rw [Option.getD_none, arity, ← List.map_const', List.zipWith_map_right, List.zipWith_self]
  | some names => exact columnsFrom_of_le (Nat.le_of_eq (h.length_names names hnames).symm)

end Complete

/-! ### Looking up names -/

theorem findIdx?_eq_some_iff {names : List (Option String)} :
    names.findIdx? (· = n) = some i ↔ names[i]? = some n ∧ ∀ j < i, ¬ names[j]? = some n := by
  rw [List.findIdx?_eq_some_iff_getElem]
  constructor
  · rintro ⟨hi, hname, hbefore⟩
    refine ⟨List.getElem?_eq_some_iff.mpr ⟨hi, of_decide_eq_true hname⟩, fun j hj hname => ?_⟩
    obtain ⟨_, hj'⟩ := List.getElem?_eq_some_iff.mp hname
    exact hbefore j hj (decide_eq_true hj')
  · rintro ⟨hname, hbefore⟩
    obtain ⟨hi, hi'⟩ := List.getElem?_eq_some_iff.mp hname
    refine ⟨hi, decide_eq_true hi', fun j hj hname => ?_⟩
    exact hbefore j hj (List.getElem?_eq_some_iff.mpr ⟨Nat.lt_trans hj hi, of_decide_eq_true hname⟩)

theorem getElem?_nameList_of_none (hnames : s.names = none) : s.nameList[i]? ≠ some (some name) := by
  rw [nameList, hnames, Option.getD_none, List.getElem?_replicate]
  split
  · exact fun h => nomatch Option.some.inj h
  · exact nofun

theorem indexOf_of_names {names : List (Option String)} (hnames : s.names = some names) : s.indexOf name
    = match names.findIdx? (· = some name) with
      | some i => .ok i
      | none => .error (.noSuchField name) := by
  obtain ⟨types, _⟩ := s
  cases hnames
  rfl

namespace Complete

/-- A name is looked up by the first column that has it. -/
theorem indexOf_eq_ok_iff (h : s.Complete) :
    s.indexOf name = .ok i ↔ s.nameAt i = .ok (some name) ∧ ∀ j < i, s.nameAt j ≠ .ok (some name) := by
  simp only [ne_eq, h.nameAt_eq_ok_iff]
  cases hnames : s.names with
  | none =>
    rw [indexOf, hnames]
    exact ⟨nofun, fun hi => absurd hi.1 (getElem?_nameList_of_none hnames)⟩
  | some names =>
    rw [indexOf_of_names hnames, nameList, hnames, Option.getD_some, ← findIdx?_eq_some_iff]
    split
    · next k hk => rw [hk, Except.ok.injEq, Option.some.injEq]
    · next hnone => rw [hnone]; exact ⟨nofun, nofun⟩

theorem knows_iff (h : s.Complete) : s.Knows name ↔ some name ∈ s.nameList := by
  simp only [Knows, h.nameAt_eq_ok_iff, List.mem_iff_getElem?]

/-- A schema with a name list refuses the names that no column has. -/
theorem indexOf_eq_error_iff (h : s.Complete) (hnames : s.names.isSome) {e : SchemaError} :
    s.indexOf name = .error e ↔ e = .noSuchField name ∧ ¬ s.Knows name := by
  obtain ⟨names, hsome⟩ := Option.isSome_iff_exists.mp hnames
  rw [h.knows_iff, nameList, hsome, Option.getD_some, indexOf_of_names hsome]
  split
  · next k hk => exact ⟨nofun, fun he => absurd (List.mem_of_getElem? (findIdx?_eq_some_iff.mp hk).1) he.2⟩
  · next hnone =>
    have hnot : some name ∉ names := fun hmem =>
      of_decide_eq_false (List.findIdx?_eq_none_iff.mp hnone _ hmem) rfl
    exact ⟨fun he => ⟨(Except.error.inj he).symm, hnot⟩, fun he => congrArg Except.error he.1.symm⟩

/-- A name that some column has is found. -/
theorem exists_indexOf (h : s.Complete) (hname : s.Knows name) : ∃ i, s.indexOf name = .ok i := by
  have hnames : s.names.isSome := by
    obtain ⟨i, hi⟩ := hname
    rw [Option.isSome_iff_ne_none]
    exact fun hnone => getElem?_nameList_of_none hnone (h.nameAt_eq_ok_iff.mp hi)
  cases hindex : s.indexOf name with
  | ok i => exact ⟨i, rfl⟩
  | error e => exact absurd hname ((h.indexOf_eq_error_iff hnames).mp hindex).2

end Complete

/-! ### Side by side -/

theorem append_eq_ok_iff : a.append b = .ok m
    ↔ ∃ as bs, a.names = some as ∧ b.names = some bs ∧ m = ⟨a.types ++ b.types, some (as ++ bs)⟩ := by
  rw [append]
  split
  · next as bs has hbs =>
    refine ⟨fun h => ⟨as, bs, has, hbs, (Except.ok.inj h).symm⟩, ?_⟩
    rintro ⟨as', bs', has', hbs', rfl⟩
    rw [Option.some.inj (has.symm.trans has'), Option.some.inj (hbs.symm.trans hbs')]
  · next hnot =>
    refine ⟨nofun, ?_⟩
    rintro ⟨as, bs, has, hbs, -⟩
    exact absurd hbs (hnot as bs has)

theorem nameList_append (h : a.append b = .ok m) : m.nameList = a.nameList ++ b.nameList := by
  obtain ⟨as, bs, has, hbs, rfl⟩ := append_eq_ok_iff.mp h
  simp only [nameList, has, hbs, Option.getD_some]

namespace Complete

theorem append (ha : a.Complete) (hb : b.Complete) (h : a.append b = .ok m) : m.Complete := by
  obtain ⟨as, bs, has, hbs, rfl⟩ := append_eq_ok_iff.mp h
  refine ⟨fun hnil => ha.nonempty (List.append_eq_nil_iff.mp hnil).1, fun names hnames => ?_⟩
  obtain rfl := Option.some.inj hnames
  rw [List.length_append, List.length_append, ha.length_names as has, hb.length_names bs hbs]

variable (ha : a.Complete) (hb : b.Complete) (h : a.append b = .ok m)

include ha hb h

theorem nameAt_append_left (hi : i < a.arity) : m.nameAt i = .ok n ↔ a.nameAt i = .ok n := by
  rw [(ha.append hb h).nameAt_eq_ok_iff, ha.nameAt_eq_ok_iff, nameList_append h, List.getElem?_append_left]
  rw [ha.length_nameList]
  exact hi

theorem nameAt_append_right (i : Nat) : m.nameAt (a.arity + i) = .ok n ↔ b.nameAt i = .ok n := by
  rw [(ha.append hb h).nameAt_eq_ok_iff, hb.nameAt_eq_ok_iff, nameList_append h, List.getElem?_append_right,
    ha.length_nameList, Nat.add_sub_cancel_left]
  rw [ha.length_nameList]
  exact Nat.le_add_right ..

theorem knows_append : m.Knows name ↔ a.Knows name ∨ b.Knows name := by
  constructor
  · rintro ⟨i, hi⟩
    rcases Nat.lt_or_ge i a.arity with hlt | hge
    · exact .inl ⟨i, (nameAt_append_left ha hb h hlt).mp hi⟩
    · obtain ⟨j, rfl⟩ := Nat.exists_eq_add_of_le hge
      exact .inr ⟨j, (nameAt_append_right ha hb h j).mp hi⟩
  · rintro (⟨i, hi⟩ | ⟨i, hi⟩)
    · exact ⟨i, (nameAt_append_left ha hb h (lt_arity_of_nameAt hi)).mpr hi⟩
    · exact ⟨a.arity + i, (nameAt_append_right ha hb h i).mpr hi⟩

theorem indexOf_append_left (hi : a.indexOf name = .ok i) : m.indexOf name = .ok i := by
  obtain ⟨hname, hbefore⟩ := ha.indexOf_eq_ok_iff.mp hi
  have hlt := lt_arity_of_nameAt hname
  refine (ha.append hb h).indexOf_eq_ok_iff.mpr ⟨(nameAt_append_left ha hb h hlt).mpr hname, fun j hj hm => ?_⟩
  exact hbefore j hj ((nameAt_append_left ha hb h (Nat.lt_trans hj hlt)).mp hm)

theorem indexOf_append_right (hnot : ¬ a.Knows name) (hi : b.indexOf name = .ok i) :
    m.indexOf name = .ok (a.arity + i) := by
  obtain ⟨hname, hbefore⟩ := hb.indexOf_eq_ok_iff.mp hi
  refine (ha.append hb h).indexOf_eq_ok_iff.mpr ⟨(nameAt_append_right ha hb h i).mpr hname, fun j hj hm => ?_⟩
  rcases Nat.lt_or_ge j a.arity with hlt | hge
  · exact hnot ⟨j, (nameAt_append_left ha hb h hlt).mp hm⟩
  · obtain ⟨k, rfl⟩ := Nat.exists_eq_add_of_le hge
    exact hbefore k (Nat.lt_of_add_lt_add_left hj) ((nameAt_append_right ha hb h k).mp hm)

end Complete

theorem totalWidth_append (xs ys : List FieldType) : totalWidth (xs ++ ys) = totalWidth xs + totalWidth ys := by
  induction xs with
  | nil => exact (Nat.zero_add _).symm
  | cons t xs ih => rw [List.cons_append, totalWidth, totalWidth, ih, Nat.add_assoc]

/-! ### Qualified names -/

namespace Complete

/-- Every column is renamed. -/
theorem qualify_eq (h : s.Complete) (table : Option String) : s.qualify table
    = .ok ⟨s.types, some (s.nameList.map fun n => some (shownName table ++ "." ++ shownName n))⟩ := by
  let rename (n : Option String) : Option String := some (shownName table ++ "." ++ shownName n)
  have hnames : (s.types.zipWith Column.mk s.nameList).map (rename ∘ Column.name) = s.nameList.map rename := by
    rw [← List.map_map, map_name_columns (Nat.le_of_eq h.length_nameList)]
  rw [qualify, h.columns_eq]
  exact congrArg (fun names => Except.ok (Schema.mk s.types (some names))) hnames

theorem nameList_qualify (h : s.Complete) (hq : s.qualify table = .ok q) :
    q.types = s.types ∧ q.names = some (s.nameList.map fun n => some (shownName table ++ "." ++ shownName n)) := by
  rw [h.qualify_eq table] at hq
  cases hq
  exact ⟨rfl, rfl⟩

theorem qualify (h : s.Complete) (hq : s.qualify table = .ok q) : q.Complete := by
  obtain ⟨htypes, hnames⟩ := h.nameList_qualify hq
  refine ⟨htypes ▸ h.nonempty, fun names hsome => ?_⟩
  obtain rfl := Option.some.inj (hnames.symm.trans hsome)
  rw [List.length_map, htypes, h.length_nameList, arity]

/-- A column has a qualified name exactly if it had the name before; only what is not set can be taken for a name. -/
theorem nameAt_qualify_iff (h : s.Complete) (hq : s.qualify table = .ok q) (hname : name ≠ "null") :
    q.nameAt i = .ok (some (shownName table ++ "." ++ name)) ↔ s.nameAt i = .ok (some name) := by
  have hshown : ∀ n : Option String, shownName n = name ↔ n = some name := by
    intro n
    cases n with
    | none => exact ⟨fun heq => absurd heq.symm hname, nofun⟩
    | some text => exact Option.some_inj.symm
  rw [(h.qualify hq).nameAt_eq_ok_iff, h.nameAt_eq_ok_iff, nameList, (h.nameList_qualify hq).2, Option.getD_some,
    List.getElem?_map]
  simp only [Option.map_eq_some_iff, Option.some.injEq, String.append_right_inj, hshown, exists_eq_right]

/-- A qualified name is looked up as the name was before. -/
theorem indexOf_qualify_iff (h : s.Complete) (hq : s.qualify table = .ok q) (hname : name ≠ "null") :
    q.indexOf (shownName table ++ "." ++ name) = .ok i ↔ s.indexOf name = .ok i := by
  simp only [(h.qualify hq).indexOf_eq_ok_iff, h.indexOf_eq_ok_iff, ne_eq, h.nameAt_qualify_iff hq hname]

end Complete

end Schema

end RelStore
