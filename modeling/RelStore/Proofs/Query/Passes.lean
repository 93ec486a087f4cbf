/-
Passes of insertions and deletions.

* `Database.Steady.insertRow`, `Database.Steady.deleteRow` — one row is stored or removed, in contents that are known;
* `Source.changeStep` — what a pass does with a row that it was given, or at the end of the rows;
* `Source.Peels.changeRows_cases` — one row of a pass: the child finds the next accepted row that is left, or the
  end, or fails;
* `Source.StaysBehind`, `Source.ChangesBehind` — changes that leave the pages behind the changed row's own page as they
  are, of the contents and of the table;
* `Source.ChangesBehind.changeRows` — a pass of such changes does each row once that was left when it began, and counts
  it;
* `Source.Peels.open_change`, `Source.Peels.rewind_change`, `Source.outcome_collect_change` — the protocol around it;
* `Plan.readTwice` — a plan that is read to its end, started over, and read again (`Plan.readAll_eq`,
  `Plan.readTwice_eq`).

Design notes.  A pass changes the table that its child reads.  What the child will hand out is a matter of the pages
that its cursor has not come to, so that is all that a change must leave alone.
-/
import RelStore.Proofs.Query.Sifting

namespace RelStore

open Page (Cells)
open RelStore.Action (Gives)
open Database (Steady)
open TableContents (room grown)
open HeapCursor (left accepted Settled Peeled)

variable {c : Catalog} {s t : Store} {f : HeapFile} {schema : Schema} {fuel : Nat} {Free : Prop}
  {accepts : List Field → Bool} {db : Database} {pages : TableContents}

/-! ### Changes of known contents -/

theorem Store.CutTo.put (h : s.CutTo t) (id : TableId) (pages : TableContents) :
    (s.put id pages).CutTo (t.put id pages) := by
  intro table
  by_cases htable : table = id
  · subst htable
    rw [Store.put_self, Store.put_self]
    exact TableContents.CutTo.refl pages
  · rw [Store.put_of_ne _ htable, Store.put_of_ne _ htable]
    exact h table

/-- A change of a page does nothing to those behind it. -/
theorem TableContents.drop_onPage {n m : Nat} {change : Cells → Cells} (h : n < m) :
    (pages.onPage n change).drop m = pages.drop m := by
  refine List.ext_getElem? fun k => ?_
  have hne : n ≠ m + k := by omega
  simp [onPage, hne]

namespace Database

variable {n : Nat}

/-- A row that is there is removed, and nothing else changes, but for long texts of other tables. -/
theorem Steady.deleteRow (h : Steady c s db) (hf : c.file f.id = .ok f) (hfits : ∀ page ∈ s f.id, Fits page)
    (txn : TxnId) {row : Row} {slot : Nat} {cells : Cells} {fields : List Field}
    (hrecord : row.record = some ⟨⟨f.id, n⟩, slot⟩) (hpage : (s f.id)[n]? = some (.ok cells))
    (hcell : cells[slot]? = some (some fields)) :
    ∃ db', (Database.deleteRow txn row).outcome db = (.ok (), db')
      ∧ Steady c (s.put f.id ((s f.id).onPage n (·.set slot none))) db' := by
  obtain ⟨r, db', t, hout, hsound, hkeeps, hcut, hr⟩ := h.ready.sound.deleteRow txn row
  have ht := h.store.trans hcut
  have htable : t f.id = s f.id := (ht f.id).eq_of_fits hfits
  rcases hr with hr | ⟨-, hidle, -⟩
  · have hdelete : t.deleteRow db.catalog row = (.ok (), t.put f.id ((s f.id).onPage n (·.set slot none))) := by
      simp only [Store.deleteRow, hrecord, Store.page, h.ready.catalog, hf, htable, hpage, hcell]
    rw [hdelete] at hr
    obtain ⟨rfl, hstore⟩ := Prod.mk.inj hr
    exact ⟨db', hout, h.ready.of_keeps hsound hkeeps, hstore ▸ ht.put _ _⟩
  · exact absurd h.ready.idle hidle

/-- A row of the right types goes to the first empty cell. -/
theorem Steady.insertRow (h : Steady c s db) (hf : c.file f.id = .ok f) (hfits : ∀ page ∈ s f.id, Fits page)
    (txn : TxnId) {row : Row} (hroom : room (s f.id) = .ok n) (hschema : row.schema = f.schema)
    (hlen : row.fields.length = f.schema.types.length) (htyped : Row.wellTyped f.schema row.fields = true) :
    ∃ db', (Database.insertRow txn f.id row).outcome db = (.ok (), db')
      ∧ Steady c (s.put f.id ((grown (slotCount f.schema f.pageSize) n (s f.id)).onPage n
          (Page.fillFirst row.fields))) db' := by
  obtain ⟨r, db', t, hout, hsound, hkeeps, hcut, hr⟩ :=
    h.ready.sound.insertRow txn f.id (hschema ▸ hlen)
  have ht := h.store.trans hcut
  have htable : t f.id = s f.id := (ht f.id).eq_of_fits hfits
  have hagrees : row.schema.agrees f.schema = true := Schema.agrees_iff.mpr (by rw [hschema])
  rcases hr with hr | ⟨-, hidle, -⟩
  · have hinsert : t.insertRow db.catalog f.id row = (.ok (), t.put f.id
        ((grown (slotCount f.schema f.pageSize) n (s f.id)).onPage n (Page.fillFirst row.fields))) := by
      simp only [Store.insertRow, h.ready.catalog, hf, hagrees, if_true, htable, hroom, htyped]
    rw [hinsert] at hr
    obtain ⟨rfl, hstore⟩ := Prod.mk.inj hr
    exact ⟨db', hout, h.ready.of_keeps hsound hkeeps, hstore ▸ ht.put _ _⟩
  · exact absurd h.ready.idle hidle

end Database

/-! ### One row of a pass -/

namespace Source

variable {β : Type} {child : Source β} {embed : HeapCursor → β} {fresh : β} {b : HeapCursor} {kind : Mutation}
  {change : Row → DbM StorageError Unit} {j count : Nat}

/-- What a pass does with a row that it was given, or at the end of the rows. -/
def changeStep (kind : Mutation) (change : Row → DbM StorageError Unit) (child : Source β) (fuel : Nat) :
    Option Row → Step (ChangeState β) (Option Row)
  | some row => do
    let count := (← Action.state).count
    match ← Action.attempt (change row) with
    | .ok () =>
      Action.update fun s => { s with count := s.count + 1 }
      changeRows kind change child fuel
    | .error cause =>
      let (ended, e) := refusal kind count cause
      Action.update fun s => { s with finished := ended }
      throw e
  | none => do
    Action.update fun s => { s with finished := true }
    let row ← Fallible.ofExcept (countRow kind (← Action.state).count)
    pure (some row)

theorem changeRows_succ (kind : Mutation) (change : Row → DbM StorageError Unit) (child : Source β) (fuel : Nat) :
    changeRows kind change child (fuel + 1) = (do
      if ← onChild child.hasNext then
        let row ← onChild child.next
        changeStep kind change child fuel (some row)
      else changeStep kind change child fuel none) := rfl

theorem outcome_changeStep_none (state : ChangeState β) (db : Database) :
    (changeStep kind change child fuel none).outcome (state, db)
      = ((countRow kind state.count).map some, { state with finished := true }, db) := by
  simp only [changeStep, Fallible.outcome_bind, Action.outcome_update, Fallible.follow_ok, Action.outcome_state,
    Fallible.outcome_ofExcept]
  cases countRow kind state.count <;> rfl

theorem outcome_changeStep_some (x : Row) (state : ChangeState β) (db : Database) :
    (changeStep kind change child fuel (some x)).outcome (state, db) =
      match (change x).outcome db with
      | (.ok (), db') =>
        (changeRows kind change child fuel).outcome ({ state with count := state.count + 1 }, db')
      | (.error cause, db') =>
        (.error (refusal kind state.count cause).2, { state with finished := (refusal kind state.count cause).1 },
          db') := by
  simp only [changeStep, Fallible.outcome_bind, Action.outcome_state, Fallible.follow_ok, Action.outcome_attempt]
  generalize (change x).outcome db = r
  obtain ⟨cause | _, db'⟩ := r <;> rfl

/-- The child finds the next accepted row that is left, or the end, and the pass goes on with that; or the child
fails. -/
theorem Peels.changeRows_cases (h : child.Peels c s f schema accepts fresh embed fuel Free) (hb : Settled f b)
    (hfree : Free → Enough fuel f schema (s f.id) b) (hdb : Steady c s db) (count : Nat) (finished : Bool) :
    (∃ row b' db', Settled f b' ∧ Peeled f schema accepts (s f.id) b b' row ∧ Steady c s db'
        ∧ (changeRows kind change child (j + 1)).outcome (⟨count, finished, Running.plain (embed b)⟩, db)
          = (changeStep kind change child j row).outcome (⟨count, finished, Running.plain (embed b')⟩, db'))
      ∨ ¬ Free ∧ ∃ cause after, (changeRows kind change child (j + 1)).outcome
          (⟨count, finished, Running.plain (embed b)⟩, db) = (.error (.storage cause), after) := by
  rw [changeRows_succ]
  simp only [Fallible.outcome_bind, Fallible.outcome_ite, onChild, Action.outcome_on]
  obtain ⟨e | more, r, db', hout, hdb', hanswer⟩ := h.hasNext hb hfree db hdb
  · obtain ⟨hnot, ⟨cause, rfl⟩, -⟩ := hanswer
    refine .inr ⟨hnot, cause, ?_⟩
    rw [hout]
    exact ⟨_, rfl⟩
  · obtain ⟨row, b', rfl, rfl, hb', hpeeled⟩ := hanswer
    refine .inl ⟨row, b', db', hb', hpeeled, hdb', ?_⟩
    rw [hout, Fallible.follow_ok]
    cases row with
    | none => rfl
    | some x =>
      have hnext : child.next.outcome ((⟨true, some x, embed b'⟩ : Running β), db')
          = (.ok x, Running.plain (embed b'), db') := by
        rw [outcome_next, outcome_hasNext, if_pos rfl]
        rfl
      simp only [Option.isSome_some, if_true, hnext, Fallible.follow_ok]

/-! ### A pass -/

variable {after : TableContents → Row → TableContents} {Good : TableContents → List Row → Prop}

/-- Changes of the contents, row by row, that leave the pages behind the row's own page as they are. `Good pages rest`
tells that the rows `rest` can be changed one after the other. -/
structure StaysBehind (f : HeapFile) (after : TableContents → Row → TableContents)
    (Good : TableContents → List Row → Prop) : Prop where
  usable : ∀ {pages rest}, Good pages rest → pages.Usable
  length : ∀ {pages x rest}, Good pages (x :: rest) → (after pages x).length = pages.length
  behind : ∀ {pages x rest n slot}, Good pages (x :: rest) → x.record = some ⟨⟨f.id, n⟩, slot⟩ →
    (after pages x).drop (n + 1) = pages.drop (n + 1)
  good : ∀ {pages x rest}, Good pages (x :: rest) → Good (after pages x) rest

/-- When all rows are done the table is as usable as it was, and as long. -/
theorem StaysBehind.foldl (h : StaysBehind f after Good) {rest : List Row} (hgood : Good pages rest) :
    (rest.foldl after pages).Usable ∧ (rest.foldl after pages).length = pages.length := by
  induction rest generalizing pages with
  | nil => exact ⟨h.usable hgood, rfl⟩
  | cons x rest ih =>
    obtain ⟨husable, hlen⟩ := ih (h.good hgood)
    exact ⟨husable, hlen.trans (h.length hgood)⟩

/-- Operations on single rows that always succeed, and change the contents in such a way. -/
structure ChangesBehind (c : Catalog) (s : Store) (f : HeapFile) (change : Row → DbM StorageError Unit)
    (after : TableContents → Row → TableContents) (Good : TableContents → List Row → Prop) : Prop
    extends StaysBehind f after Good where
  succeeds : ∀ {pages x rest}, Good pages (x :: rest) → ∀ {db}, Steady c (s.put f.id pages) db →
    ∃ db', (change x).outcome db = (.ok (), db') ∧ Steady c (s.put f.id (after pages x)) db'

variable (kind)

/-- A pass of such changes does all rows that were left when it began, and no other ones. -/
theorem ChangesBehind.changeRows (count : Nat) (h : ChangesBehind c s f change after Good)
    (hchild : ∀ {pages}, pages.Usable →
      child.Peels c (s.put f.id pages) f schema accepts fresh embed fuel True)
    (hb : Settled f b) (hfuel : Enough fuel f schema pages b) (hj : (accepted f schema accepts pages b).length < j)
    (hgood : Good pages (accepted f schema accepts pages b)) (hdb : Steady c (s.put f.id pages) db) :
    ∃ b' db', (Source.changeRows kind change child j).outcome (⟨count, false, Running.plain (embed b)⟩, db)
        = ((countRow kind (count + (accepted f schema accepts pages b).length)).map some,
          ⟨count + (accepted f schema accepts pages b).length, true, Running.plain (embed b')⟩, db')
      ∧ b'.opened = true
      ∧ Steady c (s.put f.id ((accepted f schema accepts pages b).foldl after pages)) db' := by
  have hput : s.put f.id pages f.id = pages := Store.put_self ..
  -- on the bound for the loop; each change leaves one row less to do
  induction j generalizing pages b count db with
  | zero => exact absurd hj (Nat.not_lt_zero _)
  | succ j ih =>
    obtain ⟨row, b', db', hb', hpeeled, hdb', hout⟩ | ⟨hfree, -⟩ :=
      (hchild (h.usable hgood)).changeRows_cases hb (fun _ => hput.symm ▸ hfuel) hdb count false
    · rw [hout]
      rw [hput] at hpeeled
      cases row with
      | none =>
        rw [hpeeled.accepted_eq_nil, outcome_changeStep_none]
        exact ⟨b', db', rfl, hb'.opened, hdb'⟩
      | some x =>
        have hcons := hpeeled.accepted_eq
        have hshorter := hpeeled.length_lt
        obtain ⟨-, ⟨n, slot, hrecord, hnext⟩, -⟩ := hpeeled
        rw [hcons] at hgood hj ⊢
        obtain ⟨db'', hchange, hdb''⟩ := h.succeeds hgood hdb'
        -- the cursor has left the page of this row, so it does not see the change
        have hleft : left f schema (after pages x) b' = left f schema pages b' :=
          HeapCursor.left_congr (hnext ▸ h.behind hgood hrecord)
        have haccepted : accepted f schema accepts (after pages x) b' = accepted f schema accepts pages b' := by
          rw [accepted, hleft, accepted]
        have hfuel' : Enough fuel f schema (after pages x) b' := by
          refine ⟨?_, ?_⟩
          · rw [h.length hgood]
            exact hfuel.1
          · rw [hleft]
            exact Nat.lt_trans hshorter hfuel.2
        obtain ⟨last, db₃, hrest, hopened, hdb₃⟩ := ih (count + 1) hb' hfuel'
          (by rw [haccepted]; exact Nat.lt_of_succ_lt_succ hj) (by rw [haccepted]; exact h.good hgood) hdb''
          (Store.put_self ..)
        rw [haccepted] at hrest hdb₃
        have hcount : count + (accepted f schema accepts pages b').length.succ
            = count + 1 + (accepted f schema accepts pages b').length := by omega
        refine ⟨last, db₃, ?_, hopened, hdb₃⟩
        rw [outcome_changeStep_some, hchange, List.length_cons, hcount]
        exact hrest
    · exact absurd trivial hfree

/-! ### The protocol around a pass -/

/-- A change that has not begun, over a child at its first row. -/
def changing (embed : HeapCursor → β) : Running (ChangeState β) :=
  Running.plain ⟨0, false, Running.plain (embed HeapCursor.first)⟩

theorem Peels.startChange {reset : Step (Running β) Unit} (state : ChangeState β)
    (hreset : Gives (Steady c s) reset state.child (.ok ()) fun r => r = Running.plain (embed HeapCursor.first)) :
    Gives (Steady c s) (Source.startChange reset) state (.ok ())
      fun state => state = ⟨0, false, Running.plain (embed HeapCursor.first)⟩ := by
  refine Gives.bind (Gives.on (Q := fun u => u.child = Running.plain (embed HeapCursor.first)) hreset
    fun _ hr => hr) fun u hu => Action.gives_update ?_
  rw [← hu]

variable (change)

theorem Peels.open_change (h : child.Peels c s f schema accepts fresh embed fuel Free) :
    Gives (Steady c s) (Source.change fuel kind change child).open
      (Running.closed ⟨0, false, Running.closed fresh⟩) (.ok ()) fun r => r = changing embed := by
  intro db hdb
  obtain ⟨state, db', hout, hdb', rfl⟩ := Peels.startChange ⟨0, false, Running.closed fresh⟩ h.open db hdb
  rw [outcome_open, outcome_inBody]
  refine ⟨_, db', ?_, hdb', rfl⟩
  simp only [Running.opened_closed, Bool.false_eq_true, if_false, Running.body_closed, Source.change, hout,
    Fallible.follow_ok]
  rfl

theorem Peels.rewind_change (h : child.Peels c s f schema accepts fresh embed fuel Free) (hb : b.opened = true)
    (count : Nat) (finished : Bool) :
    Gives (Steady c s) (Source.change fuel kind change child).rewind
      (Running.plain ⟨count, finished, Running.plain (embed b)⟩) (.ok ()) fun r => r = changing embed := by
  intro db hdb
  obtain ⟨state, db', hout, hdb', rfl⟩ := Peels.startChange ⟨count, finished, Running.plain (embed b)⟩
    (h.rewind hb) db hdb
  rw [outcome_rewind, if_pos (Running.opened_plain _), outcome_inBody]
  refine ⟨_, db', ?_, hdb', rfl⟩
  simp only [Source.change, Running.body_plain, hout, Fallible.follow_ok]
  rfl

variable {kind change}

/-- A pass that came to its end answers one row, or that there are too many to count. -/
theorem outcome_collect_change {state state' : ChangeState β} {db db' : Database} (hstart : state.finished = false)
    (hend : state'.finished = true)
    (hout : (Source.changeRows kind change child fuel).outcome (state, db)
      = ((countRow kind count).map some, state', db')) (k : Nat) :
    ((Source.change fuel kind change child).collect (k + 2)).outcome (Running.plain state, db)
      = ((countRow kind count).map ([·]), Running.plain state', db') := by
  have hfirst : (Source.change fuel kind change child).fetch.outcome (state, db)
      = ((countRow kind count).map some, state', db') := by
    simp only [Source.change, Fallible.outcome_bind, Action.outcome_state, Fallible.follow_ok, hstart,
      Bool.false_eq_true, if_false, hout]
  have hsecond : (Source.change fuel kind change child).fetch.outcome (state', db') = (.ok none, state', db') := by
    simp only [Source.change, Fallible.outcome_bind, Action.outcome_state, Fallible.follow_ok, hend, if_true,
      Fallible.outcome_pure]
  rw [collect, collect]
  cases hrow : countRow kind count with
  | error e =>
    rw [hrow] at hfirst
    simp only [Fallible.outcome_bind, outcome_hasNext, outcome_inBody, Running.opened_plain, if_true,
      Running.ahead_plain, Running.body_plain, hfirst]
    rfl
  | ok row =>
    rw [hrow] at hfirst
    -- the row is looked at and taken, and then the end is found
    simp [outcome_hasNext, outcome_next, outcome_inBody, hfirst, hsecond, Except.map]
    rfl

/-- A pass that fails answers the failure. -/
theorem outcome_collect_change_error {state : ChangeState β} {db : Database} {e : ExecError}
    {after : ChangeState β × Database} (hstart : state.finished = false)
    (hout : (Source.changeRows kind change child fuel).outcome (state, db) = (.error e, after)) (k : Nat) :
    ((Source.change fuel kind change child).collect (k + 1)).outcome (Running.plain state, db)
      = (.error e, Running.plain after.1, after.2) := by
  have hfirst : (Source.change fuel kind change child).fetch.outcome (state, db) = (.error e, after) := by
    simp only [Source.change, Fallible.outcome_bind, Action.outcome_state, Fallible.follow_ok, hstart,
      Bool.false_eq_true, if_false, hout]
  rw [collect]
  simp only [Fallible.outcome_bind, outcome_hasNext, outcome_inBody, Running.opened_plain, if_true,
    Running.ahead_plain, Running.body_plain, hfirst, Fallible.follow_error]
  rfl

variable (kind)

/-- A pass of changes behind the cursor, from the first row on. -/
theorem ChangesBehind.collect (h : ChangesBehind c s f change after Good)
    (hchild : ∀ {pages}, pages.Usable → child.Peels c (s.put f.id pages) f schema accepts fresh embed fuel True)
    (hfuel : Enough fuel f schema pages HeapCursor.first)
    (hgood : Good pages (accepted f schema accepts pages HeapCursor.first)) (hdb : Steady c (s.put f.id pages) db) :
    ∃ count b' db', b'.opened = true
      ∧ Steady c (s.put f.id ((accepted f schema accepts pages HeapCursor.first).foldl after pages)) db'
      ∧ ((Source.change fuel kind change child).collect fuel).outcome (changing embed, db)
        = ((countRow kind (accepted f schema accepts pages HeapCursor.first).length).map ([·]),
          Running.plain ⟨count, true, Running.plain (embed b')⟩, db') := by
  obtain ⟨b', db', hout, hb', hdb'⟩ := h.changeRows kind 0 hchild HeapCursor.settled_first hfuel
    (Nat.lt_of_le_of_lt (List.length_filter_le ..) hfuel.2) hgood hdb
  -- there is a page, so there is fuel for the row and for the end
  have hlen : 0 < pages.length := List.length_pos_of_ne_nil (h.usable hgood).1
  obtain ⟨k, rfl⟩ : ∃ k, fuel = k + 2 := ⟨fuel - 2, by have := hfuel.1; omega⟩
  rw [Nat.zero_add] at hout
  exact ⟨_, b', db', hb', hdb', outcome_collect_change rfl rfl hout k⟩

end Source

/-! ### Plans that are read once or twice -/

theorem Operator.step_eq {p : Plan} {α : Type} {a : Source p.Body → Step (Running p.Body) α} {r r' : Running p.Body}
    {db db' : Database} {x : Except ExecError α} (h : (a (p.source fuel)).outcome (r, db) = (x, r', db')) :
    (⟨p, r⟩ : Operator).step a fuel db = (x, ⟨p, r'⟩, db') := by
  simp only [Operator.step, h]

namespace Plan

/-- A plan that was never opened is opened and read to its end, and then started over and read again: both answers,
each with the database behind it. -/
def readTwice (p : Plan) (fuel : Nat) (db : Database) :
    (Except ExecError (List Row) × Database) × (Except ExecError (List Row) × Database) :=
  match (Operator.ofPlan p).open fuel db with
  | (.error e, _, db) => ((.error e, db), (.error e, db))
  | (.ok (), o, db) =>
    match o.collect fuel db with
    | (first, o, between) =>
      match o.rewind fuel between with
      | (.error e, _, db) => ((first, between), (.error e, db))
      | (.ok (), o, db) => ((first, between), ((o.collect fuel db).1, (o.collect fuel db).2.2))

variable {p : Plan} {r₁ r₂ r₃ r₄ : Running p.Body} {db₁ db₂ db₃ db₄ : Database}
  {first second : Except ExecError (List Row)}

theorem readAll_eq (hopen : (p.source fuel).open.outcome (Running.closed p.fresh, db) = (.ok (), r₁, db₁))
    (hfirst : ((p.source fuel).collect fuel).outcome (r₁, db₁) = (first, r₂, db₂)) :
    p.readAll fuel db = (first, db₂) := by
  have hopen' : (Operator.ofPlan p).open fuel db = _ := Operator.step_eq hopen
  have hfirst' : (⟨p, r₁⟩ : Operator).collect fuel db₁ = _ := Operator.step_eq hfirst
  rw [readAll, hopen']
  simp only [hfirst']

theorem readTwice_eq (hopen : (p.source fuel).open.outcome (Running.closed p.fresh, db) = (.ok (), r₁, db₁))
    (hfirst : ((p.source fuel).collect fuel).outcome (r₁, db₁) = (first, r₂, db₂))
    (hrewind : (p.source fuel).rewind.outcome (r₂, db₂) = (.ok (), r₃, db₃))
    (hsecond : ((p.source fuel).collect fuel).outcome (r₃, db₃) = (second, r₄, db₄)) :
    p.readTwice fuel db = ((first, db₂), (second, db₄)) := by
  have hopen' : (Operator.ofPlan p).open fuel db = _ := Operator.step_eq hopen
  have hfirst' : (⟨p, r₁⟩ : Operator).collect fuel db₁ = _ := Operator.step_eq hfirst
  have hrewind' : (⟨p, r₂⟩ : Operator).rewind fuel db₂ = _ := Operator.step_eq hrewind
  have hsecond' : (⟨p, r₃⟩ : Operator).collect fuel db₃ = _ := Operator.step_eq hsecond
  simp only [readTwice, hopen', hfirst', hrewind', hsecond']

end Plan

/-! ### A table of digits -/

/-- Two pages with texts within the limit. -/
theorem TableContents.usable_pair {first second : Cells} (hfirst : Page.cut first = first)
    (hsecond : Page.cut second = second) : TableContents.Usable [.ok first, .ok second] := by
  refine ⟨List.cons_ne_nil _ _, fun page hpage => ?_⟩
  rcases List.mem_cons.mp hpage with rfl | hpage
  · exact ⟨⟨_, rfl⟩, congrArg Except.ok hfirst⟩
  · obtain rfl := List.mem_singleton.mp hpage
    exact ⟨⟨_, rfl⟩, congrArg Except.ok hsecond⟩

/-- Four digits, the last of them on a page of its own. -/
def fourDigits : List PoolCall :=
  [digit 1, digit 7, digit 2, digit 8]

/-- The table of digits, under its own name. -/
def allDigits : Plan :=
  .scan ⟨digitsFile.id, "digits", some "digits"⟩ digitsFile ⟨[.int], some [some "digits.null"]⟩

theorem allDigits_built (poolSize : Nat) : allDigits.Built (digits poolSize).catalog :=
  ⟨rfl, rfl⟩

/-- Digits from 3 on. -/
def large : Predicate :=
  ⟨0, .greater, .int 2⟩

end RelStore
