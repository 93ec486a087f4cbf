/-
What the iterators of a running aggregate show.

* `AggregateSpec.admits`, `AggregateSpec.key`, `AggregateSpec.number` — which rows are taken, and what of them counts;
* `AggregateSpec.results` — the result of each group of some rows, a row or an error, from the rows alone;
* `CursorCall.onResults` — a cursor over results: an error is answered once and passed over;
* `AggregatorCall` — rows that are merged, and calls on any number of iterators, in any order;
* `AggregateSpec.Tracks` — the groups are those of the rows taken so far: `tracks_nil`, `Tracks.insert`;
* `AggregateSpec.Gathers` — they are so in any order, which is all that matters up to the order of the results;
* `Running.Shows`, `CursorCall.run_eq_onResults` — an iterator stands at a place among the results of its last start;
* `runReordered`, `AggregatorCall.Answered` — the same calls while the table of groups comes in any order;
* `runAggregator_eq_aggregatorAnswers` — all calls together.

Design notes.  The specification knows the rows that were taken and, for each iterator, the results that it has still
to hand out.  A start takes the results of the rows so far, so a later row cannot show before the next start.  Here the
groups stand in the order in which their first rows came; a table that promises no order may hand them out in any other
one, and in another one at each start.
-/
import RelStore.Proofs.Aggregate.Stats
import RelStore.Proofs.Query.Cursor

namespace RelStore

open RelStore.Action (Gives)

namespace AggregateSpec

variable (s : AggregateSpec)

/-- The row has a key of the right type, if there are groups, and a value, which is a number unless rows are only
counted. -/
def admits (row : Row) : Bool :=
  s.group.all (fun g => (row.fields[g.1]?).any (·.type = g.2))
    && (row.fields[s.field]?).any (fun f => s.input = .str ∨ f.type = .int)

/-- The key of the group that a row belongs to. -/
def key (row : Row) : Option Field :=
  s.group.bind fun g => row.fields[g.1]?

/-- The number that a row adds to its group. Where rows are only counted it does not matter. -/
def number (row : Row) : Int32 :=
  ((row.fields[s.field]?).bind Field.toInt?).getD 0

/-- The keys of the groups of some rows. Without grouping there is one group, even without rows. -/
def keys (rows : List Row) : List (Option Field) :=
  if s.group.isSome then (rows.map s.key).eraseDups else [none]

/-- The rows of a group. -/
def rowsOf (rows : List Row) (key : Option Field) : List Row :=
  rows.filter (s.key · = key)

/-- The result of a group: its key, if it has one, and the aggregate of its numbers. -/
def result (rows : List Row) (key : Option Field) : Except ExecError Row :=
  match s.op.value ((s.rowsOf rows key).map fun row => (s.number row).toInt) with
  | .ok n => .ok ⟨s.resultSchema, key.toList ++ [.int (.ofInt n)], none⟩
  | .error e => .error (.aggregate e)

/-- The results of all groups. -/
def results (rows : List Row) : List (Except ExecError Row) :=
  (s.keys rows).map (s.result rows)

end AggregateSpec

/-- A call on a cursor over results, which a start takes from `now`. An error that stands next is answered and left
behind. -/
def CursorCall.onResults (now : List (Except ExecError Row)) :
    CursorCall → Option (List (Except ExecError Row)) → CursorAnswer × Option (List (Except ExecError Row))
  | .open, _ => (.done, some now)
  | close, _ => (.done, none)
  | hasNext, some (.ok x :: rest) => (.more true, some (.ok x :: rest))
  | next, some (.ok x :: rest) => (.row x, some rest)
  | hasNext, some (.error e :: rest) | next, some (.error e :: rest) => (.failed e, some rest)
  | hasNext, some [] => (.more false, some [])
  | next, some [] => (.failed .noMoreRows, some [])
  | rewind, some _ => (.done, some now)
  | hasNext, none | next, none | rewind, none => (.failed .notOpen, none)

/-- What is done with a running aggregate: a row is merged, or one of its iterators is called. -/
inductive AggregatorCall where
  | merge (row : Row)
  | iterator (i : Nat) (call : CursorCall)
deriving DecidableEq, Repr

namespace AggregatorCall

/-- The row that a call merges. -/
def merged? : AggregatorCall → Option Row
  | merge row => some row
  | iterator .. => none

/-- A call on a running aggregate with its iterators. -/
def run (fuel : Nat) (spec : AggregateSpec) (number : Nat) (db : Database) (iterators : Nat → Operator) :
    AggregatorCall → CursorAnswer × Database × (Nat → Operator)
  | merge row =>
    let (answer, db) := (Database.feed spec number row).outcome db
    (.of (fun _ => .done) answer, db, iterators)
  | iterator i call =>
    let (answer, o, db) := call.run fuel (iterators i) db
    (answer, db, Function.update iterators i o)

/-- The same call on the rows taken so far and the results that each iterator has left. A row is answered as if it
were the first. -/
def onRows (spec : AggregateSpec) (rows : List Row) (places : Nat → Option (List (Except ExecError Row))) :
    AggregatorCall → CursorAnswer × List Row × (Nat → Option (List (Except ExecError Row)))
  | merge row =>
    (.of (fun _ => .done) (spec.absorb {} row), if spec.admits row then rows ++ [row] else rows, places)
  | iterator i call =>
    let (answer, place) := call.onResults (spec.results rows) (places i)
    (answer, rows, Function.update places i place)

end AggregatorCall

/-- The answers of some calls on a running aggregate. -/
def runAggregator (fuel : Nat) (spec : AggregateSpec) (number : Nat) :
    List AggregatorCall → Database → (Nat → Operator) → List CursorAnswer
  | [], _, _ => []
  | call :: calls, db, iterators =>
    let (answer, db, iterators) := call.run fuel spec number db iterators
    answer :: runAggregator fuel spec number calls db iterators

/-- The answers that the rows taken so far call for. -/
def aggregatorAnswers (spec : AggregateSpec) :
    List AggregatorCall → List Row → (Nat → Option (List (Except ExecError Row))) → List CursorAnswer
  | [], _, _ => []
  | call :: calls, rows, places =>
    let (answer, rows, places) := call.onRows spec rows places
    answer :: aggregatorAnswers spec calls rows places

/-- The database where the table of groups comes in the order of the given entries, if these are its own. -/
def Database.reorder (number : Nat) (entries : List (Option Field × Stat)) (db : Database) : Database :=
  if entries.Perm ((db.running.get? number).getD {}).entries then
    { db with running := db.running.insert number ⟨entries⟩ }
  else db

/-- The answers of some calls on a running aggregate, where the table of groups comes in a new order before each call. -/
def runReordered (fuel : Nat) (spec : AggregateSpec) (number : Nat) :
    List (List (Option Field × Stat) × AggregatorCall) → Database → (Nat → Operator) → List CursorAnswer
  | [], _, _ => []
  | (entries, call) :: calls, db, iterators =>
    let (answer, db, iterators) := call.run fuel spec number (db.reorder number entries) iterators
    answer :: runReordered fuel spec number calls db iterators

/-- Answers that the rows taken so far call for, where every start takes the results in some order. -/
inductive AggregatorCall.Answered (spec : AggregateSpec) :
    List AggregatorCall → List Row → (Nat → Option (List (Except ExecError Row))) → List CursorAnswer → Prop
  | nil {rows : List Row} {places : Nat → Option (List (Except ExecError Row))} : Answered spec [] rows places []
  | merge {row : Row} {calls : List AggregatorCall} {rows : List Row}
    {places : Nat → Option (List (Except ExecError Row))} {answers : List CursorAnswer}
    (h : Answered spec calls (if spec.admits row then rows ++ [row] else rows) places answers) :
    Answered spec (.merge row :: calls) rows places (.of (fun _ => .done) (spec.absorb {} row) :: answers)
  | iterator {i : Nat} {call : CursorCall} {calls : List AggregatorCall} {rows : List Row}
    {places : Nat → Option (List (Except ExecError Row))} {now : List (Except ExecError Row)}
    {answers : List CursorAnswer} (hnow : now.Perm (spec.results rows))
    (h : Answered spec calls rows (Function.update places i (call.onResults now (places i)).2) answers) :
    Answered spec (.iterator i call :: calls) rows places ((call.onResults now (places i)).1 :: answers)

/-! ### Tables of groups -/

namespace Assoc

variable {κ ν : Type} [DecidableEq κ] {ks : List κ} {f : κ → ν} {k : κ}

theorem get?_map_mk : (Assoc.mk (ks.map fun k => (k, f k))).get? k = if k ∈ ks then some (f k) else none := by
  induction ks with
  | nil => rfl
  | cons k' ks ih =>
    rw [List.map_cons, get?, List.find?_cons]
    rcases eq_or_ne k' k with rfl | hne
    · simp
    · rw [get?] at ih
      simp only [hne, decide_false, ih, List.mem_cons, Ne.symm hne, false_or]

/-- Keeping a value under a key adds the key at the end, if it is new, and changes the value of no other key. -/
theorem insertEntry_map (v : ν) (h : ks.Nodup) :
    insertEntry k v (ks.map fun k => (k, f k))
      = (if k ∈ ks then ks else ks ++ [k]).map fun k' => (k', if k' = k then v else f k') := by
  induction ks with
  | nil => simp [insertEntry]
  | cons k' ks ih =>
    obtain ⟨hk', hks⟩ := List.nodup_cons.mp h
    rw [List.map_cons, insertEntry]
    rcases eq_or_ne k' k with rfl | hne
    · have hrest : ∀ k'' ∈ ks, k'' ≠ k' := fun k'' hmem heq => hk' (heq ▸ hmem)
      simp +contextual [hrest]
    · rw [if_neg hne, ih hks]
      by_cases hmem : k ∈ ks <;> simp [hmem, hne, Ne.symm hne]

variable {m m' : Assoc κ ν}

omit [DecidableEq κ] in
theorem nodup_keys_of_perm (h : m.keys.Nodup) (hperm : m'.entries.Perm m.entries) : m'.keys.Nodup :=
  (hperm.map Prod.fst).nodup_iff.mpr h

/-- A lookup does not depend on the order of the entries. -/
theorem get?_eq_of_perm (h : m.keys.Nodup) (hperm : m'.entries.Perm m.entries) (k : κ) : m'.get? k = m.get? k := by
  ext v
  exact (mem_entries_iff (nodup_keys_of_perm h hperm)).symm.trans (hperm.mem_iff.trans (mem_entries_iff h))

/-- Nor do the entries depend on more than the lookups, except for their order. -/
theorem perm_of_get?_eq (h : m.keys.Nodup) (h' : m'.keys.Nodup) (hsame : ∀ k, m'.get? k = m.get? k) :
    m'.entries.Perm m.entries := by
  refine (List.perm_ext_iff_of_nodup (h'.of_map _) (h.of_map _)).mpr fun ⟨k, v⟩ => ?_
  rw [mem_entries_iff h', mem_entries_iff h, hsame]

end Assoc

theorem eraseDups_concat {α : Type} [BEq α] [LawfulBEq α] (xs : List α) (x : α) :
    (xs ++ [x]).eraseDups = if x ∈ xs then xs.eraseDups else xs.eraseDups ++ [x] := by
  rw [List.eraseDups_append]
  by_cases h : x ∈ xs <;> simp [List.removeAll, h, List.eraseDups_cons]

theorem nodup_eraseDups {α : Type} [BEq α] [LawfulBEq α] (xs : List α) : xs.eraseDups.Nodup := by
  induction xs using List.reverseRecOn with
  | nil => exact List.nodup_nil
  | append_singleton xs x ih =>
    rw [eraseDups_concat]
    split
    · exact ih
    · next h =>
      refine List.nodup_append.mpr ⟨ih, List.pairwise_singleton _ x, fun a ha b hb hab => h ?_⟩
      rw [← List.mem_singleton.mp hb, ← hab]
      exact List.mem_eraseDups.mp ha

/-! ### Rows and their groups -/

namespace AggregateSpec

variable {s : AggregateSpec} {row : Row} {rows : List Row} {groups : Groups} {k : Option Field}

/-- The statistics of the rows of a group. -/
def stat (s : AggregateSpec) (rows : List Row) : Stat :=
  match s.input with
  | .int => Stat.ofNumbers (rows.map s.number)
  | .str => { count := .ofNat rows.length }

/-- What one more row does to the statistics of its group. -/
def count (s : AggregateSpec) (row : Row) (stat : Stat) : Stat :=
  match s.input with
  | .int => stat.update (s.number row)
  | .str => stat.updateCount

theorem stat_concat (s : AggregateSpec) (rows : List Row) (row : Row) :
    s.stat (rows ++ [row]) = s.count row (s.stat rows) := by
  unfold stat count
  cases s.input with
  | int => simp
  | str => simp [Stat.updateCount, UInt64.ofNat_add]

theorem groupKey_eq (s : AggregateSpec) (row : Row) :
    if s.group.all (fun g => (row.fields[g.1]?).any (·.type = g.2)) = true then s.groupKey row = .ok (s.key row)
    else ∃ e, s.groupKey row = .error e := by
  unfold groupKey key
  rcases s.group with _ | ⟨i, type⟩
  · rfl
  · rcases hf : row.fields[i]? with _ | f
    · simp [hf]
    · by_cases htype : f.type = type <;> simp [hf, htype]

theorem contribution_eq (s : AggregateSpec) (row : Row) :
    if (row.fields[s.field]?).any (fun f => s.input = .str ∨ f.type = .int) = true then
      s.contribution row = .ok (s.count row)
    else ∃ e, s.contribution row = .error e := by
  unfold contribution count number
  rcases hf : row.fields[s.field]? with _ | f
  · simp
  · cases hinput : s.input <;> cases f <;> simp [Field.type, Field.toInt?]

/-- A row that is admitted goes into its group. -/
theorem absorb_of_admits (h : s.admits row = true) (groups : Groups) :
    s.absorb groups row
      = .ok (groups.insert (s.key row) (s.count row ((groups.get? (s.key row)).getD Stat.empty))) := by
  obtain ⟨hgroup, hfield⟩ := Bool.and_eq_true_iff.mp h
  have hkey := s.groupKey_eq row
  have hchange := s.contribution_eq row
  rw [if_pos hgroup] at hkey
  rw [if_pos hfield] at hchange
  rw [absorb, hkey, hchange]

/-- A row that is not admitted is refused, whatever the groups are. -/
theorem absorb_of_not_admits (h : ¬ s.admits row = true) : ∃ e, ∀ groups, s.absorb groups row = .error e := by
  have hkey := s.groupKey_eq row
  have hchange := s.contribution_eq row
  split at hkey
  · next hgroup =>
    rw [if_neg fun hfield => h (Bool.and_eq_true_iff.mpr ⟨hgroup, hfield⟩)] at hchange
    obtain ⟨e, he⟩ := hchange
    exact ⟨e, fun groups => by rw [absorb, hkey, he]⟩
  · obtain ⟨e, he⟩ := hkey
    exact ⟨e, fun groups => by rw [absorb, he]⟩

theorem rowsOf_concat (s : AggregateSpec) (rows : List Row) (row : Row) (k : Option Field) :
    s.rowsOf (rows ++ [row]) k = if s.key row = k then s.rowsOf rows k ++ [row] else s.rowsOf rows k := by
  rw [rowsOf, List.filter_append]
  by_cases h : s.key row = k <;> simp [rowsOf, h]

theorem rowsOf_eq_nil (h : k ∉ rows.map s.key) : s.rowsOf rows k = [] := by
  refine List.filter_eq_nil_iff.mpr fun row hrow hkey => h ?_
  exact List.mem_map.mpr ⟨row, hrow, of_decide_eq_true hkey⟩

/-- The groups are those of some rows, in the order in which their first rows came. -/
def Tracks (s : AggregateSpec) (rows : List Row) (groups : Groups) : Prop :=
  groups.entries = (rows.map s.key).eraseDups.map fun k => (k, s.stat (s.rowsOf rows k))

theorem tracks_nil : s.Tracks [] {} := rfl

theorem Tracks.getD_get? (h : s.Tracks rows groups) (k : Option Field) :
    (groups.get? k).getD Stat.empty = s.stat (s.rowsOf rows k) := by
  obtain ⟨entries⟩ := groups
  rw [show entries = _ from h, Assoc.get?_map_mk]
  split
  · rfl
  · next hk =>
    rw [rowsOf_eq_nil fun hmem => hk (List.mem_eraseDups.mpr hmem), stat]
    cases s.input <;> rfl

/-- One more row keeps the groups those of all rows. -/
theorem Tracks.insert (h : s.Tracks rows groups) (row : Row) :
    s.Tracks (rows ++ [row])
      (groups.insert (s.key row) (s.count row ((groups.get? (s.key row)).getD Stat.empty))) := by
  have hkeys : ((rows ++ [row]).map s.key).eraseDups = if s.key row ∈ (rows.map s.key).eraseDups
      then (rows.map s.key).eraseDups else (rows.map s.key).eraseDups ++ [s.key row] := by
    rw [List.map_append, List.map_singleton, eraseDups_concat]
    simp only [List.mem_eraseDups]
  have hstat : ∀ k, (if k = s.key row then s.count row (s.stat (s.rowsOf rows (s.key row)))
      else s.stat (s.rowsOf rows k)) = s.stat (s.rowsOf (rows ++ [row]) k) := by
    intro k
    rw [rowsOf_concat, ← stat_concat]
    by_cases hk : k = s.key row
    · rw [if_pos hk, if_pos hk.symm, hk]
    · rw [if_neg hk, if_neg (Ne.symm hk)]
  show Assoc.insertEntry _ _ groups.entries = _
  rw [h.getD_get?, h, hkeys]
  refine (Assoc.insertEntry_map _ (nodup_eraseDups _)).trans ?_
  simp only [hstat]
  by_cases hmem : s.key row ∈ (rows.map s.key).eraseDups
  · rw [if_pos hmem, if_pos hmem]
  · rw [if_neg hmem, if_neg hmem]

theorem Tracks.nodup_keys (h : s.Tracks rows groups) : groups.keys.Nodup := by
  rw [Assoc.keys, show groups.entries = _ from h, List.map_map]
  exact (List.map_id _).symm ▸ nodup_eraseDups _

/-- The groups are those of some rows, in any order. -/
structure Gathers (s : AggregateSpec) (rows : List Row) (groups : Groups) : Prop where
  nodup : groups.keys.Nodup
  lookups : ∃ ordered, s.Tracks rows ordered ∧ ∀ k, groups.get? k = Assoc.get? ordered k

theorem Tracks.gathers (h : s.Tracks rows groups) : s.Gathers rows groups :=
  ⟨h.nodup_keys, groups, h, fun _ => rfl⟩

theorem Gathers.insert (h : s.Gathers rows groups) (row : Row) :
    s.Gathers (rows ++ [row])
      (groups.insert (s.key row) (s.count row ((groups.get? (s.key row)).getD Stat.empty))) := by
  obtain ⟨hnodup, ordered, htracks, hsame⟩ := h
  refine ⟨Assoc.nodup_keys_insert hnodup _ _, _, htracks.insert row, fun k => ?_⟩
  rw [Assoc.get?_insert, Assoc.get?_insert, hsame, hsame]

theorem Gathers.of_perm (h : s.Gathers rows groups) {groups' : Groups} (hperm : groups'.entries.Perm groups.entries) :
    s.Gathers rows groups' := by
  obtain ⟨hnodup, ordered, htracks, hsame⟩ := h
  refine ⟨Assoc.nodup_keys_of_perm hnodup hperm, ordered, htracks, fun k => ?_⟩
  rw [Assoc.get?_eq_of_perm hnodup hperm, hsame]

/-! ### Results of groups -/

/-- What an iterator takes when it starts. -/
theorem Tracks.snapshot (h : s.Tracks rows groups) (hadmits : ∀ row ∈ rows, s.admits row = true) :
    Source.snapshot s.group.isSome groups = (s.keys rows).map fun k => (k, s.stat (s.rowsOf rows k)) := by
  unfold Source.snapshot keys
  split
  · next hgrouped =>
    rw [h]
    -- a row that is admitted has a key
    refine List.filter_eq_self.mpr fun entry hentry => ?_
    obtain ⟨k, hk, rfl⟩ := List.mem_map.mp hentry
    obtain ⟨row, hrow, rfl⟩ := List.mem_map.mp (List.mem_eraseDups.mp hk)
    obtain ⟨⟨i, type⟩, hgroup⟩ := Option.isSome_iff_exists.mp hgrouped
    have hkey := (Bool.and_eq_true_iff.mp (hadmits row hrow)).1
    show (s.key row).isSome = true
    rw [hgroup] at hkey
    rw [key, hgroup]
    exact Option.isSome_of_any hkey
  · rw [h.getD_get? none]
    rfl

theorem emit_stat (hcheck : s.check = .ok ()) (hrows : rows.length < 2 ^ 31) :
    ((s.stat rows).emit s.op).map Int32.toInt = s.op.value (rows.map fun row => (s.number row).toInt) := by
  unfold stat
  cases hinput : s.input with
  | int =>
    have hemit : ((Stat.ofNumbers (rows.map s.number)).emit s.op).map Int32.toInt = _ :=
      Stat.emit_ofNumbers (by rwa [List.length_map])
    rwa [List.map_map] at hemit
  | str =>
    -- only a count is allowed here, and it does not look at the numbers
    have hop : s.op = .count := by
      by_contra hne
      rw [check, if_pos ⟨hinput, hne⟩] at hcheck
      cases hcheck
    rw [hop]
    show (Stat.toColumn .count ((UInt64.ofNat rows.length).toNat : Int)).map Int32.toInt = .ok _
    rw [Stat.toColumn_eq_value, UInt64.toNat_ofNat', Nat.mod_eq_of_lt (by omega), Int32.toInt_minValue,
      Int32.toInt_maxValue, List.length_map]
    exact if_pos (by omega)

end AggregateSpec

/-- The result row of a group, or why it has none. -/
def Source.fetched (op : AggregateOp) (schema : Schema) (group : Option Field × Stat) : Except ExecError Row :=
  match group.2.emit op with
  | .ok value => .ok ⟨schema, group.1.toList ++ [.int value], none⟩
  | .error e => .error (.aggregate e)

namespace AggregateSpec

variable {s : AggregateSpec} {rows : List Row} {groups : Groups} {k : Option Field}

theorem length_rowsOf_le (s : AggregateSpec) (rows : List Row) (k : Option Field) :
    (s.rowsOf rows k).length ≤ rows.length :=
  List.length_filter_le ..

theorem fetched_stat (hcheck : s.check = .ok ()) (hrows : rows.length < 2 ^ 31) (k : Option Field) :
    Source.fetched s.op s.resultSchema (k, s.stat (s.rowsOf rows k)) = s.result rows k := by
  have hlength := s.length_rowsOf_le rows k
  have hemit := emit_stat hcheck (show (s.rowsOf rows k).length < 2 ^ 31 by omega)
  rw [result, ← hemit, Source.fetched]
  cases (s.stat (s.rowsOf rows k)).emit s.op with
  | ok value => simp [Except.map, Int32.ofInt_toInt]
  | error e => rfl

/-- A group that has a key among the rows is not empty. -/
theorem rowsOf_eq_nil_iff (hkey : k ∈ s.keys rows) : s.rowsOf rows k = [] ↔ s.group = none ∧ rows = [] := by
  rw [keys] at hkey
  split at hkey
  · next hgrouped =>
    have hne := Option.isSome_iff_ne_none.mp hgrouped
    obtain ⟨row, hrow, rfl⟩ := List.mem_map.mp (List.mem_eraseDups.mp hkey)
    constructor
    · intro hnil
      exact absurd (decide_eq_true rfl) (List.filter_eq_nil_iff.mp hnil row hrow)
    · exact fun h => absurd h.1 hne
  · next hgrouped =>
    have hnone : s.group = none := Option.not_isSome_iff_eq_none.mp hgrouped
    have hall : ∀ row ∈ rows, decide (s.key row = k) = true := by
      intro row _
      rw [List.mem_singleton.mp hkey, key, hnone]
      rfl
    rw [rowsOf, List.filter_eq_self.mpr hall]
    exact ⟨fun h => ⟨hnone, h⟩, fun h => h.2⟩

/-- A group has no result exactly when its sum is no word, or when the mean of no rows at all is asked for. -/
theorem result_eq_error_iff (hkey : k ∈ s.keys rows) (e : ExecError) :
    s.result rows k = .error e ↔
      (s.op = .sum ∧ e = .aggregate (.overflow .sum)
        ∧ ¬ (Int32.minValue.toInt ≤ ((s.rowsOf rows k).map fun row => (s.number row).toInt).sum
          ∧ ((s.rowsOf rows k).map fun row => (s.number row).toInt).sum ≤ Int32.maxValue.toInt))
      ∨ (s.op = .avg ∧ e = .aggregate (.emptyInput .avg) ∧ s.group = none ∧ rows = []) := by
  have hnil : (s.rowsOf rows k).map (fun row => (s.number row).toInt) = [] ↔ s.group = none ∧ rows = [] :=
    List.map_eq_nil_iff.trans (rowsOf_eq_nil_iff hkey)
  have herror := AggregateOp.value_eq_error_iff s.op ((s.rowsOf rows k).map fun row => (s.number row).toInt)
  rw [result]
  constructor
  · intro h
    split at h
    · cases h
    · next e' he' =>
      obtain rfl := Except.error.inj h
      rcases (herror e').mp he' with ⟨hop, rfl, hsum⟩ | ⟨hop, rfl, hempty⟩
      · exact .inl ⟨hop, rfl, hsum⟩
      · exact .inr ⟨hop, rfl, hnil.mp hempty⟩
  · rintro (⟨hop, rfl, hsum⟩ | ⟨hop, rfl, hempty⟩)
    · rw [(herror _).mpr (.inl ⟨hop, rfl, hsum⟩)]
    · rw [(herror _).mpr (.inr ⟨hop, rfl, hnil.mpr hempty⟩)]

/-- An iterator that starts has the results of the rows so far before it. -/
theorem Tracks.results (h : s.Tracks rows groups) (hcheck : s.check = .ok ())
    (hadmits : ∀ row ∈ rows, s.admits row = true) (hrows : rows.length < 2 ^ 31) :
    (Source.snapshot s.group.isSome groups).map (Source.fetched s.op s.resultSchema) = s.results rows := by
  rw [h.snapshot hadmits, List.map_map, AggregateSpec.results]
  exact List.map_congr_left fun k _ => fetched_stat hcheck hrows k

/-- An iterator that starts has these results before it in some order, if the groups come in any order. -/
theorem Gathers.results (h : s.Gathers rows groups) (hcheck : s.check = .ok ())
    (hadmits : ∀ row ∈ rows, s.admits row = true) (hrows : rows.length < 2 ^ 31) :
    ((Source.snapshot s.group.isSome groups).map (Source.fetched s.op s.resultSchema)).Perm (s.results rows) := by
  obtain ⟨hnodup, ordered, htracks, hsame⟩ := h
  rw [← htracks.results hcheck hadmits hrows]
  refine List.Perm.map _ ?_
  rw [Source.snapshot, Source.snapshot, hsame]
  split
  · exact (Assoc.perm_of_get?_eq htracks.nodup_keys hnodup hsame).filter _
  · exact List.Perm.refl _

/-- The results do not depend on the order of the rows, except for their own order. -/
theorem results_perm {rows' : List Row} (h : rows.Perm rows') : (s.results rows).Perm (s.results rows') := by
  have hresult : s.result rows = s.result rows' := by
    funext k
    rw [result, result, rowsOf, rowsOf, AggregateOp.value_eq_of_perm s.op ((h.filter _).map _)]
  have hkeys : (s.keys rows).Perm (s.keys rows') := by
    unfold keys
    split
    · refine (List.perm_ext_iff_of_nodup (nodup_eraseDups _) (nodup_eraseDups _)).mpr fun k => ?_
      rw [List.mem_eraseDups, List.mem_eraseDups]
      exact (h.map s.key).mem_iff
    · exact List.Perm.refl _
  rw [results, results, hresult]
  exact hkeys.map _

end AggregateSpec

/-! ### Iterators -/

/-- The results that an iterator has still to hand out: the row that it has fetched ahead, and what is behind it. -/
def Running.Shows (s : AggregateSpec) (r : Running PendingGroups) : Option (List (Except ExecError Row)) → Prop
  | none => IsShut (fun _ => True) r
  | some left => r.opened = true
      ∧ left = r.ahead.toList.map .ok ++ r.body.map (Source.fetched s.op s.resultSchema)

namespace Source

variable {s : AggregateSpec} {r : Running PendingGroups} {left rest : List (Except ExecError Row)} {x : Row}
  {e : ExecError} {number fuel : Nat} {db : Database} {P : Database → Prop}

theorem outcome_fetchGroup_cons (op : AggregateOp) (schema : Schema) (group : Option Field × Stat)
    (pending : PendingGroups) (db : Database) :
    (fetchGroup op schema).outcome (group :: pending, db)
      = ((fetched op schema group).map some, pending, db) := by
  unfold fetchGroup fetched
  simp only [Fallible.outcome_bind, Action.outcome_state, Fallible.follow_ok, Action.outcome_update,
    Fallible.outcome_ofExcept]
  cases group.2.emit op <;> rfl

section

variable {src : Source PendingGroups} (hsrc : src.fetch = fetchGroup s.op s.resultSchema)

include hsrc

theorem gives_hasNext_shows_nil (h : r.Shows s (some [])) :
    Gives P src.hasNext r (.ok false) fun r => r.Shows s (some []) := by
  intro db hdb
  obtain ⟨hopened, hleft⟩ := h
  obtain ⟨hahead, hbody⟩ := List.append_eq_nil_iff.mp hleft.symm
  rw [List.map_eq_nil_iff] at hahead hbody
  have hnone : r.ahead = none := Option.toList_eq_nil_iff.mp hahead
  refine ⟨{ r with ahead := none }, db, ?_, hdb, hopened, by rw [hbody]; rfl⟩
  rw [outcome_hasNext, if_pos hopened, hnone]
  dsimp only
  rw [outcome_inBody, hsrc, hbody]
  show (Except.ok false, ({ r with body := [], ahead := none } : Running _), db) = _
  rw [← hbody]

/-- A row that stands next is kept ahead. -/
theorem gives_hasNext_shows_ok (h : r.Shows s (some (.ok x :: rest))) :
    Gives P src.hasNext r (.ok true) fun r => r.ahead = some x ∧ r.Shows s (some (.ok x :: rest)) := by
  intro db hdb
  obtain ⟨hopened, hleft⟩ := h
  cases hahead : r.ahead with
  | some y =>
    rw [hahead] at hleft
    obtain rfl : x = y := Except.ok.inj (List.head_eq_of_cons_eq hleft)
    refine ⟨r, db, ?_, hdb, hahead, hopened, by rw [hahead]; exact hleft⟩
    rw [outcome_hasNext, if_pos hopened, hahead]
  | none =>
    rw [hahead] at hleft
    obtain ⟨group, pending, hbody, hgroup, rfl⟩ := List.map_eq_cons_iff.mp hleft.symm
    refine ⟨{ r with ahead := some x, body := pending }, db, ?_, hdb, rfl, hopened, rfl⟩
    rw [outcome_hasNext, if_pos hopened, hahead]
    dsimp only
    rw [outcome_inBody, hsrc, hbody, outcome_fetchGroup_cons, hgroup]
    rfl

/-- An error that stands next is answered and left behind. -/
theorem gives_hasNext_shows_error (h : r.Shows s (some (.error e :: rest))) :
    Gives P src.hasNext r (.error e) fun r => r.Shows s (some rest) := by
  intro db hdb
  obtain ⟨hopened, hleft⟩ := h
  cases hahead : r.ahead with
  | some y =>
    rw [hahead] at hleft
    cases List.head_eq_of_cons_eq hleft
  | none =>
    rw [hahead] at hleft
    obtain ⟨group, pending, hbody, hgroup, rfl⟩ := List.map_eq_cons_iff.mp hleft.symm
    refine ⟨{ r with body := pending }, db, ?_, hdb, hopened, by rw [hahead]; rfl⟩
    rw [outcome_hasNext, if_pos hopened, hahead]
    dsimp only
    rw [outcome_inBody, hsrc, hbody, outcome_fetchGroup_cons, hgroup, hahead]
    rfl

theorem gives_next_shows_nil (h : r.Shows s (some [])) :
    Gives P src.next r (.error .noMoreRows) fun r => r.Shows s (some []) := by
  intro db hdb
  obtain ⟨r', db', hout, hdb', hshows⟩ := gives_hasNext_shows_nil hsrc h db hdb
  exact ⟨r', db', by rw [outcome_next, hout]; rfl, hdb', hshows⟩

theorem gives_next_shows_ok (h : r.Shows s (some (.ok x :: rest))) :
    Gives P src.next r (.ok x) fun r => r.Shows s (some rest) := by
  intro db hdb
  obtain ⟨r', db', hout, hdb', hahead, hopened, hleft⟩ := gives_hasNext_shows_ok hsrc h db hdb
  rw [hahead] at hleft
  refine ⟨{ r' with ahead := none }, db', ?_, hdb', hopened, List.tail_eq_of_cons_eq hleft⟩
  rw [outcome_next, hout, Fallible.follow_ok]
  simp only [hahead]

theorem gives_next_shows_error (h : r.Shows s (some (.error e :: rest))) :
    Gives P src.next r (.error e) fun r => r.Shows s (some rest) := by
  intro db hdb
  obtain ⟨r', db', hout, hdb', hshows⟩ := gives_hasNext_shows_error hsrc h db hdb
  exact ⟨r', db', by rw [outcome_next, hout]; rfl, hdb', hshows⟩

end

/-- The results that an iterator takes when it starts. -/
def ready (s : AggregateSpec) (number : Nat) (db : Database) : List (Except ExecError Row) :=
  (snapshot s.group.isSome ((db.running.get? number).getD {})).map (fetched s.op s.resultSchema)

theorem gives_open_shows :
    Gives (· = db) (groups number s.group.isSome s.op s.resultSchema).open r (.ok ())
      fun r => Running.Shows s r (some (ready s number db)) := by
  rintro db rfl
  let started : Running PendingGroups := ⟨true, none, snapshot s.group.isSome ((db.running.get? number).getD {})⟩
  exact ⟨started, db, by rw [outcome_open]; rfl, rfl, rfl, rfl⟩

theorem gives_rewind_shows (h : r.opened = true) :
    Gives (· = db) (groups number s.group.isSome s.op s.resultSchema).rewind r (.ok ())
      fun r => Running.Shows s r (some (ready s number db)) := by
  rintro db rfl
  let started : Running PendingGroups :=
    ⟨r.opened, none, snapshot s.group.isSome ((db.running.get? number).getD {})⟩
  exact ⟨started, db, by rw [outcome_rewind, if_pos h]; rfl, rfl, h, rfl⟩

end Source

namespace CursorCall

variable {s : AggregateSpec} {r : Running PendingGroups} {place : Option (List (Except ExecError Row))}
  {number fuel : Nat} {db : Database}

/-- What a step of an iterator answers, the call answers. -/
theorem exists_run_groups {α : Type} {a : Step (Running PendingGroups) α} {res : Except ExecError α}
    {Q : Running PendingGroups → Prop} {answer : α → CursorAnswer} (h : Gives (· = db) a r res Q) :
    ∃ r', (let (x, b, db) := a.outcome (r, db); (CursorAnswer.of answer x, (⟨.groups number s, b⟩ : Operator), db))
      = (CursorAnswer.of answer res, ⟨.groups number s, r'⟩, db) ∧ Q r' := by
  obtain ⟨r', db', hout, rfl, hr'⟩ := h db rfl
  exact ⟨r', by rw [hout], hr'⟩

/-- One call on an iterator answers as on its results, and changes nothing else. -/
theorem run_eq_onResults (call : CursorCall) (hr : r.Shows s place) :
    ∃ r', call.run fuel ⟨.groups number s, r⟩ db
        = ((call.onResults (Source.ready s number db) place).1, ⟨.groups number s, r'⟩, db)
      ∧ Running.Shows s r' (call.onResults (Source.ready s number db) place).2 := by
  have hsrc : (Source.groups number s.group.isSome s.op s.resultSchema).fetch
      = Source.fetchGroup s.op s.resultSchema := rfl
  cases call with
  | «open» => exact exists_run_groups Source.gives_open_shows
  | close => exact ⟨_, rfl, rfl, trivial⟩
  | rewind =>
    match place with
    | none =>
      have hshut : Running.IsShut (fun _ => True) r := hr
      exact exists_run_groups (Source.gives_rewind_of_closed hshut)
    | some left => exact exists_run_groups (Source.gives_rewind_shows hr.1)
  | hasNext =>
    match place with
    | none =>
      have hshut : Running.IsShut (fun _ => True) r := hr
      exact exists_run_groups (Source.gives_hasNext_of_closed hshut)
    | some [] => exact exists_run_groups (Source.gives_hasNext_shows_nil hsrc hr)
    | some (.ok x :: rest) =>
      exact exists_run_groups ((Source.gives_hasNext_shows_ok hsrc hr).mono fun r hr => hr.2)
    | some (.error e :: rest) => exact exists_run_groups (Source.gives_hasNext_shows_error hsrc hr)
  | next =>
    match place with
    | none =>
      have hshut : Running.IsShut (fun _ => True) r := hr
      exact exists_run_groups (Source.gives_next_of_closed hshut)
    | some [] => exact exists_run_groups (Source.gives_next_shows_nil hsrc hr)
    | some (.ok x :: rest) => exact exists_run_groups (Source.gives_next_shows_ok hsrc hr)
    | some (.error e :: rest) => exact exists_run_groups (Source.gives_next_shows_error hsrc hr)

end CursorCall

/-! ### All calls -/

/-- Rows and places say what a running aggregate and its iterators are at, where `Table` tells how the groups stand. -/
structure Aggregating (Table : List Row → Groups → Prop) (spec : AggregateSpec) (number : Nat) (rows : List Row)
    (places : Nat → Option (List (Except ExecError Row))) (db : Database) (iterators : Nat → Operator) : Prop where
  table : Table rows ((db.running.get? number).getD {})
  admits : ∀ row ∈ rows, spec.admits row = true
  shows : ∀ i, ∃ r, iterators i = ⟨.groups number spec, r⟩ ∧ Running.Shows spec r (places i)

variable {spec : AggregateSpec} {number fuel : Nat} {rows : List Row} {row : Row} {db : Database}
  {places : Nat → Option (List (Except ExecError Row))} {iterators : Nat → Operator}

theorem outcome_feed (spec : AggregateSpec) (number : Nat) (row : Row) (db : Database) :
    (Database.feed spec number row).outcome db
      = match spec.absorb ((db.running.get? number).getD {}) row with
        | .ok groups => (.ok (), { db with running := db.running.insert number groups })
        | .error e => (.error e, db) := by
  unfold Database.feed
  simp only [Fallible.outcome_bind, Fallible.outcome_get, Fallible.follow_ok, Fallible.outcome_ofExcept]
  cases spec.absorb ((db.running.get? number).getD {}) row <;> rfl

/-- A row that is refused changes nothing. -/
theorem exists_outcome_feed_error (h : ¬ spec.admits row = true) (db : Database) :
    ∃ e, (Database.feed spec number row).outcome db = (.error e, db) := by
  obtain ⟨e, he⟩ := AggregateSpec.absorb_of_not_admits h
  exact ⟨e, by rw [outcome_feed, he]⟩

namespace Aggregating

variable {Table : List Row → Groups → Prop}

/-- A merged row is answered as if it were the first, and joins the rows if it is admitted. -/
theorem merge (h : Aggregating Table spec number rows places db iterators)
    (hinsert : ∀ {rows groups}, Table rows groups → ∀ row, Table (rows ++ [row])
      (groups.insert (spec.key row) (spec.count row ((groups.get? (spec.key row)).getD Stat.empty)))) (row : Row) :
    ∃ db', (AggregatorCall.merge row).run fuel spec number db iterators
        = (.of (fun _ => .done) (spec.absorb {} row), db', iterators)
      ∧ Aggregating Table spec number (if spec.admits row then rows ++ [row] else rows) places db' iterators := by
  rw [AggregatorCall.run, outcome_feed]
  by_cases hrow : spec.admits row = true
  · rw [AggregateSpec.absorb_of_admits hrow, AggregateSpec.absorb_of_admits hrow, if_pos hrow]
    refine ⟨_, rfl, ?_, ?_, h.shows⟩
    · rw [Assoc.get?_insert, if_pos rfl]
      exact hinsert h.table row
    · intro row' hrow'
      rcases List.mem_append.mp hrow' with hold | hnew
      · exact h.admits row' hold
      · rw [List.mem_singleton.mp hnew]
        exact hrow
  · obtain ⟨e, he⟩ := AggregateSpec.absorb_of_not_admits hrow
    rw [he, he, if_neg hrow]
    exact ⟨db, rfl, h⟩

/-- An iterator is answered from the results that it took when it started. -/
theorem iterator (h : Aggregating Table spec number rows places db iterators) (i : Nat) (call : CursorCall) :
    ∃ iterators', (AggregatorCall.iterator i call).run fuel spec number db iterators
        = ((call.onResults (Source.ready spec number db) (places i)).1, db, iterators')
      ∧ Aggregating Table spec number rows
        (Function.update places i (call.onResults (Source.ready spec number db) (places i)).2) db iterators' := by
  obtain ⟨r, hr, hshows⟩ := h.shows i
  obtain ⟨r', hrun, hshows'⟩ : ∃ r', call.run fuel ⟨.groups number spec, r⟩ db
      = ((call.onResults (Source.ready spec number db) (places i)).1, ⟨.groups number spec, r'⟩, db)
    ∧ Running.Shows spec r' (call.onResults (Source.ready spec number db) (places i)).2 :=
    call.run_eq_onResults hshows
  refine ⟨Function.update iterators i ⟨.groups number spec, r'⟩, ?_, h.table, h.admits, fun j => ?_⟩
  · rw [AggregatorCall.run, hr, hrun]
  · rcases eq_or_ne j i with rfl | hne
    · rw [Function.update_self, Function.update_self]
      exact ⟨r', rfl, hshows'⟩
    · rw [Function.update_of_ne hne, Function.update_of_ne hne]
      exact h.shows j

/-- Every row that is merged makes the rows longer by one at most. -/
theorem length_le (spec : AggregateSpec) (rows : List Row) (row : Row) :
    (if spec.admits row then rows ++ [row] else rows).length ≤ rows.length + 1 := by
  split
  · rw [List.length_append, List.length_singleton]
  · exact Nat.le_succ _

/-- So all calls are answered as the rows call for. -/
theorem run_eq (hcheck : spec.check = .ok ()) (calls : List AggregatorCall)
    (h : Aggregating spec.Tracks spec number rows places db iterators)
    (hrows : rows.length + (calls.filterMap AggregatorCall.merged?).length < 2 ^ 31) :
    runAggregator fuel spec number calls db iterators = aggregatorAnswers spec calls rows places := by
  induction calls generalizing rows places db iterators with
  | nil => rfl
  | cons call calls ih =>
    cases call with
    | merge row =>
      obtain ⟨db', hrun, h'⟩ := h.merge AggregateSpec.Tracks.insert row
      have hmerged : ((AggregatorCall.merge row :: calls).filterMap AggregatorCall.merged?).length
          = (calls.filterMap AggregatorCall.merged?).length + 1 := rfl
      have hlength := length_le spec rows row
      rw [runAggregator, aggregatorAnswers, hrun]
      exact congrArg _ (ih h' (by omega))
    | iterator i call =>
      obtain ⟨iterators', hrun, h'⟩ := h.iterator i call
      have hready : Source.ready spec number db = spec.results rows := h.table.results hcheck h.admits (by omega)
      rw [hready] at hrun h'
      rw [runAggregator, aggregatorAnswers, hrun]
      exact congrArg _ (ih h' hrows)

/-- The table of groups may come in another order at any time. -/
theorem reorder (h : Aggregating spec.Gathers spec number rows places db iterators)
    (entries : List (Option Field × Stat)) :
    Aggregating spec.Gathers spec number rows places (db.reorder number entries) iterators := by
  rw [Database.reorder]
  split
  · next hperm =>
    refine ⟨?_, h.admits, h.shows⟩
    rw [Assoc.get?_insert, if_pos rfl]
    exact h.table.of_perm hperm
  · exact h

/-- Then all calls are answered as the rows call for, up to the order of the results at each start. -/
theorem run_reordered (hcheck : spec.check = .ok ()) (calls : List (List (Option Field × Stat) × AggregatorCall))
    (h : Aggregating spec.Gathers spec number rows places db iterators)
    (hrows : rows.length + ((calls.map (·.2)).filterMap AggregatorCall.merged?).length < 2 ^ 31) :
    AggregatorCall.Answered spec (calls.map (·.2)) rows places
      (runReordered fuel spec number calls db iterators) := by
  induction calls generalizing rows places db iterators with
  | nil => exact .nil
  | cons entry calls ih =>
    obtain ⟨entries, call⟩ := entry
    have hordered := h.reorder entries
    rw [List.map_cons] at hrows ⊢
    dsimp only at hrows ⊢
    cases call with
    | merge row =>
      obtain ⟨db', hrun, h'⟩ := hordered.merge AggregateSpec.Gathers.insert row
      have hmerged : ((AggregatorCall.merge row :: calls.map (·.2)).filterMap AggregatorCall.merged?).length
          = ((calls.map (·.2)).filterMap AggregatorCall.merged?).length + 1 := rfl
      have hlength := length_le spec rows row
      rw [runReordered, hrun]
      exact .merge (ih h' (by omega))
    | iterator i call =>
      obtain ⟨iterators', hrun, h'⟩ := hordered.iterator i call
      rw [runReordered, hrun]
      exact .iterator (hordered.table.results hcheck hordered.admits (by omega)) (ih h' hrows)

end Aggregating

/-- A new running aggregate over fewer than 2 ^ 31 merged rows, and all its iterators, answer every sequence of calls
as the rows call for that were taken before: an iterator shows the results of the rows before its last start. Where the
table of groups comes in another order before each call, so do these results, and nothing else is different. A refused
row changes nothing, the order of the rows changes no result, every key has one result, only a sum or a mean can be an
error, and no result is cut off by its word. -/
theorem runAggregator_eq_aggregatorAnswers {start : Database} (hcheck : spec.check = .ok ())
    (hnew : (Database.newGroups : DbM ExecError Nat).outcome start = (.ok number, db)) (calls : List AggregatorCall)
    (hmerged : (calls.filterMap AggregatorCall.merged?).length < 2 ^ 31) :
    runAggregator fuel spec number calls db (fun _ => Operator.groups number spec)
        = aggregatorAnswers spec calls [] (fun _ => none)
      ∧ (∀ ordered : List (List (Option Field × Stat) × AggregatorCall), ordered.map (·.2) = calls →
          AggregatorCall.Answered spec calls [] (fun _ => none)
            (runReordered fuel spec number ordered db (fun _ => Operator.groups number spec)))
      ∧ (∀ row, ¬ spec.admits row = true →
          ∀ db, ∃ e, (Database.feed spec number row).outcome db = (.error e, db))
      ∧ (∀ rows rows', rows.Perm rows' → (spec.results rows).Perm (spec.results rows'))
      ∧ (∀ rows, (spec.keys rows).Nodup ∧ (spec.group = none → spec.keys rows = [none])
          ∧ (spec.group ≠ none → ∀ key, key ∈ spec.keys rows ↔ ∃ row ∈ rows, spec.key row = key))
      ∧ (∀ rows key, key ∈ spec.keys rows → ∀ e, spec.result rows key = .error e ↔
          (spec.op = .sum ∧ e = .aggregate (.overflow .sum)
            ∧ ¬ (Int32.minValue.toInt ≤ ((spec.rowsOf rows key).map fun row => (spec.number row).toInt).sum
              ∧ ((spec.rowsOf rows key).map fun row => (spec.number row).toInt).sum ≤ Int32.maxValue.toInt))
          ∨ (spec.op = .avg ∧ e = .aggregate (.emptyInput .avg) ∧ spec.group = none ∧ rows = []))
      ∧ ∀ rows key n, rows.length < 2 ^ 31 →
          spec.op.value ((spec.rowsOf rows key).map fun row => (spec.number row).toInt) = .ok n →
          (Int32.ofInt n).toInt = n := by
  obtain ⟨hnumber, hdb⟩ := Prod.mk.inj hnew
  have hnone : db.running.get? number = some {} := by
    rw [← hdb, ← Except.ok.inj hnumber]
    exact (Assoc.get?_insert ..).trans (if_pos rfl)
  have hfirst : ∀ {Table : List Row → Groups → Prop}, Table [] {} →
      Aggregating Table spec number [] (fun _ => none) db (fun _ => Operator.groups number spec) := by
    intro Table htable
    refine ⟨?_, fun row hrow => absurd hrow List.not_mem_nil, fun i => ⟨_, rfl, rfl, trivial⟩⟩
    rw [hnone]
    exact htable
  refine ⟨?_, fun ordered hordered => ?_, fun row hrow db => exists_outcome_feed_error hrow db,
    fun rows rows' => AggregateSpec.results_perm, fun rows => ⟨?_, ?_, ?_⟩,
    fun rows key => AggregateSpec.result_eq_error_iff, ?_⟩
  · exact (hfirst AggregateSpec.tracks_nil).run_eq hcheck calls (by simpa using hmerged)
  · rw [← hordered] at hmerged ⊢
    exact (hfirst AggregateSpec.tracks_nil.gathers).run_reordered hcheck ordered (by simpa using hmerged)
  · unfold AggregateSpec.keys
    split
    · exact nodup_eraseDups _
    · exact List.pairwise_singleton _ _
  · intro hgroup
    rw [AggregateSpec.keys, hgroup]
    rfl
  · intro hgroup key
    rw [AggregateSpec.keys, if_pos (Option.isSome_iff_ne_none.mpr hgroup), List.mem_eraseDups]
    exact List.mem_map
  · intro rows key n hrows hvalue
    have hlength := spec.length_rowsOf_le rows key
    rw [← AggregateSpec.emit_stat hcheck (by omega)] at hvalue
    cases hemit : (spec.stat (spec.rowsOf rows key)).emit spec.op with
    | error e =>
      rw [hemit] at hvalue
      cases hvalue
    | ok value =>
      rw [hemit] at hvalue
      rw [← Except.ok.inj hvalue, Int32.ofInt_toInt]

/-- A number under a name. -/
def tally (n : Int32) (name : String) : Row :=
  ⟨⟨[.int, .str], none⟩, [.int n, .str name], none⟩

/-- The sum of the numbers of each name. -/
def sumByName : AggregateSpec :=
  ⟨.int, some (1, .str), 0, .sum⟩

/-- A row without a name is refused, a group with too great a sum is passed over, and what is merged after a start shows
at the next. -/
theorem runAggregator_sumByName :
    sumByName.check = .ok () ∧
    runAggregator 0 sumByName 0
        [.merge (tally 5 "a"), .merge ⟨⟨[.int], none⟩, [.int 1], none⟩, .iterator 0 .open,
          .merge (tally Int32.maxValue "b"), .merge (tally 1 "b"), .merge (tally 7 "a"), .merge (tally 3 "c"),
          .iterator 0 .hasNext, .iterator 0 .next, .iterator 0 .next, .iterator 0 .rewind, .iterator 0 .next,
          .iterator 0 .hasNext, .iterator 0 .next, .iterator 0 .hasNext]
        ((Database.newGroups : DbM ExecError Nat).outcome (Database.ofPoolSize 1)).2
        (fun _ => Operator.groups 0 sumByName)
      = [.done, .failed (.schema (.indexOutOfRange 1)), .done, .done, .done, .done, .done,
          .more true, .row ⟨⟨[.str, .int], none⟩, [.str "a", .int 5], none⟩, .failed .noMoreRows, .done,
          .row ⟨⟨[.str, .int], none⟩, [.str "a", .int 12], none⟩, .failed (.aggregate (.overflow .sum)),
          .row ⟨⟨[.str, .int], none⟩, [.str "c", .int 3], none⟩, .more false] := by
  have hnew : (Database.newGroups : DbM ExecError Nat).outcome (Database.ofPoolSize 1)
      = (.ok 0, ((Database.newGroups : DbM ExecError Nat).outcome (Database.ofPoolSize 1)).2) := rfl
  refine ⟨rfl, (runAggregator_eq_aggregatorAnswers rfl hnew _ ?_).1.trans ?_⟩
  · decide
  · decide +kernel

end RelStore
