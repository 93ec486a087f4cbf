/-
A pass of insertions or deletions that may be interrupted, refused and asked again.

* `RowChange.source` — a pass as a source of rows: it hands out one, with the count;
* `RowChange.Separate` — everything fits together, and the rows come from elsewhere than where they are changed;
* `RowChange.Applied` — the first rows are done, in order, and no other row is changed;
* `RowChange.Going` — a pass that has not ended: the rows that are counted are done, and the child offers the others;
* `RowChange.Ends`, `RowChange.Going.ends` — what can come of one attempt to end a pass;
* `RowChange.Stage` — a pass as its callers see it: `Stage.on_unsettled` and `Stage.on_settled` are its answers.

Design notes.  A pass asks its child for a row, does it and counts it, in this order.  So between two rows the count is
the number of rows that the child handed out, whatever the child does when it is asked for the next one.  The child may
be any tree, and change tables of its own; nothing is told of these.
-/
import RelStore.Proofs.Query.Alone
import RelStore.Proofs.Query.Cursor

namespace RelStore

namespace RowChange

/-- A pass that does a change with every row of a child. -/
def source {β : Type} (change : RowChange) (fuel : Nat) (child : Source β) : Source (ChangeState β) :=
  Source.change fuel change.kind change.run child

theorem source_insert (txn : TxnId) (table : TableId) (schema : Schema) (child : Plan) (fuel : Nat) :
    (Plan.insert txn table schema child).source fuel
      = (RowChange.insert txn table schema).source fuel (child.source fuel) := rfl

theorem source_delete (txn : TxnId) (child : Plan) (fuel : Nat) :
    (Plan.delete txn child).source fuel = (RowChange.delete txn).source fuel (child.source fuel) := rfl

/-- A change with the rows of a tree: the two fit together and suit the tables, and the tree neither reads nor changes a
table where its rows are changed. -/
structure Separate (c : Catalog) (p : Plan) (change : RowChange) : Prop where
  plan : (change.plan p).Fitting c (Plan.Filled (change.plan p).Stores)
  suits : change.Suits c
  apart : ∀ id ∈ change.reach p, id ∉ p.uses ++ p.changes

section

variable (change : RowChange) (c : Catalog) (n fuel : Nat) (held : List Handle) (p : Plan) (s : Store) (xs : List Row)

/-- The first `k` of the rows `xs` are done, one after the other, and no other row is changed, but in tables that the
child changes. -/
structure Applied (k : Nat) (u : Store) : Prop where
  le : k ≤ xs.length
  rows : ∃ t, change.applied c (xs.take k) s = .ok t
    ∧ ∀ record, record.page.table ∉ p.changes → u.row? record = t.row? record
  tables : ∀ id, id ∉ p.changes → ¬ change.Touches xs id → u id = s id

/-- The same while no row was refused: then no empty page was appended either. -/
structure Done (k : Nat) (u : Store) : Prop where
  le : k ≤ xs.length
  contents : ∃ t, change.applied c (xs.take k) s = .ok t ∧ ∀ id, id ∉ p.changes → u id = t id

/-- A pass over the rows `xs`, begun on the contents `s`, that has not ended: those that are counted are done, and the
child offers the others. -/
structure Going (state : ChangeState p.Body) (db : Database) : Prop where
  finished : state.finished = false
  done : Done change c p s xs state.count db.store
  offers : p.Offers c fuel (xs.drop state.count) state.child db

/-- What can come of an attempt to end a pass. -/
inductive Ends : Except ExecError Row → ChangeState p.Body → Database → Prop
  /-- All rows are done, and are counted if there are not too many. -/
  | counted {child : Running p.Body} {db : Database} (hdone : Done change c p s xs xs.length db.store) :
    Ends (countRow change.kind xs.length) ⟨xs.length, true, child⟩ db
  /-- The next row was refused. -/
  | refused {k : Nat} {row : Row} {cause : StorageError} {t : Store} {child : Running p.Body} {db : Database}
    (hrow : xs[k]? = some row) (hdone : change.applied c (xs.take k) s = .ok t)
    (hrefuses : change.Refuses c n held t row cause) (happlied : Applied change c p s xs k db.store) :
    Ends (.error (.mutation change.kind k cause)) ⟨k, true, child⟩ db
  /-- The child failed when it was asked for the next row. -/
  | interrupted {e : ExecError} {state : ChangeState p.Body} {child : Running p.Body} {db db' : Database}
    (hgoing : Going change c fuel p s xs state db)
    (hlook : (p.source fuel).hasNext.outcome (state.child, db) = (.error e, child, db'))
    (hdone : Done change c p s xs state.count db'.store) :
    Ends (.error e) { state with child := child } db'

/-- An open pass: it goes on; or all rows are done and the count is ready; or what it came to was handed out. -/
inductive Stage : Running (ChangeState p.Body) → Database → Prop
  | going {state : ChangeState p.Body} {db : Database} (h : Going change c fuel p s xs state db) :
    Stage ⟨true, none, state⟩ db
  | counted {row : Row} {child : Running p.Body} {db : Database} (hrow : countRow change.kind xs.length = .ok row)
    (hdone : Done change c p s xs xs.length db.store) : Stage ⟨true, some row, ⟨xs.length, true, child⟩⟩ db
  | settled {k : Nat} {child : Running p.Body} {db : Database} (happlied : Applied change c p s xs k db.store) :
    Stage ⟨true, none, ⟨k, true, child⟩⟩ db

end

/-- A pass is over, and what it came to was handed out. -/
def Settled {β : Type} (r : Running (ChangeState β)) : Prop :=
  r.body.finished = true ∧ r.ahead = none

variable {change : RowChange} {c : Catalog} {n fuel : Nat} {held : List Handle} {p : Plan} {s t u : Store}
  {xs rest : List Row} {row : Row} {k : Nat} {db db' : Database}

/-! ### Rows that are done -/

theorem Done.applied (h : change.Done c p s xs k u) : change.Applied c p s xs k u := by
  obtain ⟨t, hdone, hsame⟩ := h.contents
  refine ⟨h.le, ⟨t, hdone, fun record hrecord => ?_⟩, fun id hid htouches => (hsame id hid).trans ?_⟩
  · rw [Store.row?, Store.row?, hsame _ hrecord]
  · exact applied_of_not_touches hdone fun h => htouches (h.mono fun _ => List.mem_of_mem_take)

/-- What the child does is of no concern. -/
theorem Done.congr (h : change.Done c p s xs k u) {v : Store} (hsame : ∀ id, id ∉ p.changes → v id = u id) :
    change.Done c p s xs k v := by
  obtain ⟨t, hdone, hcontents⟩ := h.contents
  exact ⟨h.le, t, hdone, fun id hid => (hsame id hid).trans (hcontents id hid)⟩

/-- Whatever comes of it, as many rows are done as are counted. -/
theorem Ends.applied {res : Except ExecError Row} {state : ChangeState p.Body}
    (h : change.Ends c n fuel held p s xs res state db) : change.Applied c p s xs state.count db.store := by
  cases h with
  | counted hdone => exact hdone.applied
  | refused hrow hdone hrefuses happlied => exact happlied
  | interrupted hgoing hlook hdone => exact hdone.applied

/-- At every stage as many rows are done as are counted. -/
theorem Stage.applied {r : Running (ChangeState p.Body)} (h : change.Stage c fuel p s xs r db) :
    change.Applied c p s xs r.body.count db.store := by
  cases h with
  | going h => exact h.done.applied
  | counted hrow hdone => exact hdone.applied
  | settled happlied => exact happlied

/-! ### The next row -/

namespace Separate

variable (h : change.Separate c p)

include h

theorem child : p.Fitting c (Plan.Filled (change.plan p).Stores) := by
  have hplan := h.plan
  cases change with
  | insert txn table schema => exact hplan.2.2
  | delete txn => exact hplan

theorem texts : p.Stores → (change.plan p).Stores := by
  cases change with
  | insert txn table schema => exact fun _ => trivial
  | delete txn => exact id

theorem accepts (hrow : row.Sized (change.plan p).Stores p.schema.arity p.located) :
    change.Accepts row ∧ ∀ id, change.Touches [row] id → id ∈ change.reach p :=
  accepts_of_sized change h.plan id hrow

/-- A row that is done or refused is none of those that the child has still to hand out. -/
theorem offers_run (hrow : row.Sized (change.plan p).Stores p.schema.arity p.located)
    (hrunning : db'.running = db.running) (hsame : ∀ id, ¬ change.Touches [row] id → db'.store id = db.store id)
    {r : Running p.Body} (hoffers : p.Offers c fuel rest r db) : p.Offers c fuel rest r db' :=
  hoffers.congr hrunning fun id hid => hsame id fun htouches => h.apart id ((h.accepts hrow).2 id htouches) hid

/-- The next row is done, or refused. -/
theorem run {r : Running p.Body} (hplace : p.InPlace (change.plan p).Stores n c held r db)
    (hdone : change.Done c p s xs k db.store) (hrest : xs.drop k = row :: rest) (hoffers : p.Offers c fuel rest r db)
    (hrow : row.Sized (change.plan p).Stores p.schema.arity p.located) :
    ∃ res db', (change.run row).outcome db = (res, db') ∧ p.InPlace (change.plan p).Stores n c held r db'
      ∧ match res with
        | .ok () => change.Going c fuel p s xs ⟨k + 1, false, r⟩ db'
        | .error cause => refusal change.kind k cause = (true, .mutation change.kind k cause)
          ∧ change.Ends c n fuel held p s xs (.error (.mutation change.kind k cause)) ⟨k, true, r⟩ db' := by
  have hget : xs[k]? = some row := by
    rw [← Nat.add_zero k, ← List.getElem?_drop, hrest]
    rfl
  obtain ⟨haccepts, htouches⟩ := h.accepts hrow
  obtain ⟨t, happlied, hsame⟩ := hdone.contents
  -- the row's tables are none of those that the child changes, so they are as in the contents told by `applied`
  have hcongr := onStore_congr (c := c) fun id hid =>
    hsame id fun hmem => h.apart id (htouches id hid) (List.mem_append_right _ hmem)
  obtain ⟨res, db', hrun, hsound, hfits, hrunning, hdoes⟩ := outcome_run hplace.pool hplace.fits haccepts
  have hplace' : p.InPlace (change.plan p).Stores n c held r db' :=
    ⟨hsound, hfits, hplace.keys.congr hrunning, hplace.keeps⟩
  refine ⟨res, db', hrun, hplace', ?_⟩
  cases res with
  | ok u =>
    have hstore : db'.store = (change.onStore c db.store row).2 := by rw [hdoes]
    have happlied' : change.applied c (xs.take (k + 1)) s = .ok (change.onStore c t row).2 := by
      have hrow' : change.onStore c t row = (.ok (), (change.onStore c t row).2) :=
        Prod.ext (hcongr.1.symm.trans (by rw [hdoes])) rfl
      rw [List.take_add_one, hget]
      exact applied_concat happlied hrow'
    have hsame' : ∀ id, id ∉ p.changes → db'.store id = (change.onStore c t row).2 id := by
      intro id hid
      rw [hstore]
      exact hcongr.2 id (hsame id hid)
    have hoffers' : p.Offers c fuel (xs.drop (k + 1)) r db' := by
      rw [← List.tail_drop, hrest]
      refine h.offers_run hrow hrunning (fun id hid => ?_) hoffers
      rw [hstore]
      exact onStore_of_not_touches hid
    exact ⟨rfl, ⟨(List.getElem?_eq_some_iff.mp hget).1, _, happlied', hsame'⟩, hoffers'⟩
  | error cause =>
    obtain ⟨hrefuses, hrows, htables⟩ := hdoes
    refine ⟨refusal_of_error h.suits hplace.pool (by rw [hrun]) change.kind k, .refused hget happlied ?_ ?_⟩
    · exact hrefuses.imp_left fun herror => hcongr.1.symm.trans herror
    · refine ⟨hdone.le, ⟨t, happlied, fun record hrecord => ?_⟩, fun id hid hnot => ?_⟩
      · rw [hrows, Store.row?, Store.row?, hsame _ hrecord]
      · refine (htables id fun htouch => hnot (htouch.mono ?_)).trans (hdone.applied.tables id hid hnot)
        intro row' hrow'
        rw [List.mem_singleton.mp hrow']
        exact List.mem_of_getElem? hget

end Separate

/-! ### Attempts to end a pass -/

/-- An attempt to end a pass: the rows that are left are done one after the other, as far as it goes. -/
theorem Going.ends (hsep : change.Separate c p) {child : Running p.Body}
    (hplace : p.InPlace (change.plan p).Stores n c held child db)
    (hgoing : change.Going c fuel p s xs ⟨k, false, child⟩ db) {j : Nat} (hj : xs.length - k < j) :
    ∃ res state db', (Source.changeRows change.kind change.run (p.source fuel) j).outcome (⟨k, false, child⟩, db)
        = (res.map some, state, db')
      ∧ p.InPlace (change.plan p).Stores n c held state.child db' ∧ change.Ends c n fuel held p s xs res state db' := by
  -- on the bound for the loop; one row less is left behind each row that is done
  induction j generalizing k child db with
  | zero => exact absurd hj (Nat.not_lt_zero _)
  | succ j ih =>
    rw [Source.changeRows_succ]
    simp only [Fallible.outcome_bind, Fallible.outcome_ite, Source.onChild, Action.outcome_on]
    rcases hlook : (p.source fuel).hasNext.outcome (child, db) with ⟨e | more, r, db₁⟩
    · obtain ⟨hplace₁, -, hstore⟩ := hplace.hasNext hsep.child hsep.texts hlook
      exact ⟨.error e, ⟨k, false, r⟩, db₁, rfl, hplace₁, .interrupted hgoing hlook (hgoing.done.congr hstore)⟩
    · obtain ⟨hplace₁, -, hstore⟩ := hplace.hasNext hsep.child hsep.texts hlook
      have hdone : change.Done c p s xs k db₁.store := hgoing.done.congr hstore
      cases more with
      | false =>
        have hrest : xs.drop k = [] := hplace.offers_of_ended hsep.child hsep.texts hgoing.offers hlook
        obtain rfl : k = xs.length := Nat.le_antisymm hdone.le (List.drop_eq_nil_iff.mp hrest)
        refine ⟨countRow change.kind xs.length, ⟨xs.length, true, r⟩, db₁, ?_, hplace₁, .counted hdone⟩
        simp only [Fallible.follow_ok, Bool.false_eq_true, if_false, Source.outcome_changeStep_none]
      | true =>
        obtain ⟨row, hnext⟩ := Source.outcome_next_of_hasNext hlook
        obtain ⟨rest, hrest, hoffers⟩ := hplace.offers_of_row hsep.child hsep.texts hgoing.offers hlook hnext
        obtain ⟨hplace₂, hrow⟩ := hplace₁.next hsep.child hsep.texts hnext
        obtain ⟨res, db₂, hrun, hplace', hres⟩ := hsep.run hplace₂ hdone hrest hoffers hrow
        simp only [Fallible.follow_ok, if_true, hnext, Source.outcome_changeStep_some, hrun]
        cases res with
        | ok u =>
          have hle : k + 1 ≤ xs.length := hres.done.le
          exact ih hplace' hres (by omega)
        | error cause =>
          obtain ⟨hrefusal, hends⟩ := hres
          dsimp only
          rw [hrefusal]
          exact ⟨_, _, db₂, rfl, hplace', hends⟩

/-! ### Stages of a pass -/

/-- Behind an attempt to end a pass there is a ready count, or nothing; then the pass goes on if its child has failed
and offers the same rows as before, and is settled otherwise. -/
theorem Ends.stage {res : Except ExecError Row} {state : ChangeState p.Body}
    (h : change.Ends c n fuel held p s xs res state db)
    (hkept : state.finished = false → p.Offers c fuel (xs.drop state.count) state.child db) :
    change.Stage c fuel p s xs ⟨true, res.toOption, state⟩ db := by
  cases h with
  | counted hdone =>
    cases hrow : countRow change.kind xs.length with
    | ok row => exact .counted hrow hdone
    | error e => exact .settled hdone.applied
  | refused hrow hdone hrefuses happlied => exact .settled happlied
  | interrupted hgoing hlook hdone => exact .going ⟨hgoing.finished, hdone, hkept hgoing.finished⟩

namespace Stage

variable {r : Running (ChangeState p.Body)}

theorem opened (h : change.Stage c fuel p s xs r db) : r.opened = true := by
  cases h <;> rfl

/-- Who holds buffers is of no concern to a pass. -/
theorem congr (h : change.Stage c fuel p s xs r db) (hstore : db'.store = db.store)
    (hrunning : db'.running = db.running) : change.Stage c fuel p s xs r db' := by
  cases h with
  | going h =>
    refine .going ⟨h.finished, h.done.congr fun id _ => ?_, h.offers.congr hrunning fun id _ => ?_⟩
    · rw [hstore]
    · rw [hstore]
  | counted hrow hdone => exact .counted hrow (by rw [hstore]; exact hdone)
  | settled happlied => exact .settled (by rw [hstore]; exact happlied)

/-- The count is handed out. -/
theorem taken {row : Row} {state : ChangeState p.Body} (h : change.Stage c fuel p s xs ⟨true, some row, state⟩ db) :
    change.Stage c fuel p s xs ⟨true, none, state⟩ db := by
  cases h with
  | counted hrow hdone => exact .settled hdone.applied

/-- A settled pass comes to nothing any more. -/
theorem on_settled (h : change.Stage c fuel p s xs r db) (hsettled : Settled r) :
    CursorCall.hasNext.on (change.source fuel (p.source fuel)) r db = (.more false, r, db)
      ∧ CursorCall.next.on (change.source fuel (p.source fuel)) r db = (.failed .noMoreRows, r, db) := by
  obtain ⟨hfinished, hahead⟩ := hsettled
  cases h with
  | going h => cases h.finished.symm.trans hfinished
  | counted hrow hdone => cases hahead
  | @settled k child db happlied =>
    have hfetch : (change.source fuel (p.source fuel)).fetch.outcome ((⟨k, true, child⟩ : ChangeState p.Body), db)
        = (.ok none, ⟨k, true, child⟩, db) := rfl
    have hhasNext : (change.source fuel (p.source fuel)).hasNext.outcome (⟨true, none, ⟨k, true, child⟩⟩, db)
        = (.ok false, ⟨true, none, ⟨k, true, child⟩⟩, db) := by
      rw [Source.outcome_hasNext, if_pos rfl, Source.outcome_inBody, hfetch]
      rfl
    constructor
    · rw [CursorCall.on, CursorCall.answered, hhasNext]
      rfl
    · rw [CursorCall.on, CursorCall.answered, Source.outcome_next, hhasNext]
      rfl

/-- A pass that is not settled looks whether there is a row. -/
theorem outcome_hasNext (h : change.Stage c fuel p s xs r db) (hunsettled : ¬ Settled r) (hsep : change.Separate c p)
    (hplace : p.InPlace (change.plan p).Stores n c held r.body.child db) (hfuel : xs.length < fuel) :
    ∃ res state db', (change.source fuel (p.source fuel)).hasNext.outcome (r, db)
        = (res.map fun _ => true, ⟨true, res.toOption, state⟩, db')
      ∧ p.InPlace (change.plan p).Stores n c held state.child db' ∧ change.Ends c n fuel held p s xs res state db' := by
  rw [Source.outcome_hasNext, if_pos h.opened]
  cases h with
  | @counted row child db hrow hdone =>
    exact ⟨.ok row, _, db, rfl, hplace, by rw [← hrow]; exact .counted hdone⟩
  | settled happlied => exact absurd ⟨rfl, rfl⟩ hunsettled
  | @going state db h =>
    obtain ⟨k, finished, child⟩ := state
    obtain rfl : finished = false := h.finished
    obtain ⟨res, state, db', hout, hplace', hends⟩ := h.ends hsep hplace (Nat.lt_of_le_of_lt (Nat.sub_le _ k) hfuel)
    have hfetch : (change.source fuel (p.source fuel)).fetch.outcome ((⟨k, false, child⟩ : ChangeState p.Body), db)
        = (res.map some, state, db') := hout
    rw [Source.outcome_inBody, hfetch]
    refine ⟨res, state, db', ?_, hplace', hends⟩
    cases res <;> rfl

/-- Whoever asks such a pass whether there is a row, or for a row, hears what it came to. -/
theorem on_unsettled (h : change.Stage c fuel p s xs r db) (hunsettled : ¬ Settled r) (hsep : change.Separate c p)
    (hplace : p.InPlace (change.plan p).Stores n c held r.body.child db) (hfuel : xs.length < fuel) :
    ∃ res state db', change.Ends c n fuel held p s xs res state db'
      ∧ p.InPlace (change.plan p).Stores n c held state.child db'
      ∧ CursorCall.hasNext.on (change.source fuel (p.source fuel)) r db
        = (.of (fun _ => .more true) res, ⟨true, res.toOption, state⟩, db')
      ∧ CursorCall.next.on (change.source fuel (p.source fuel)) r db = (.of .row res, ⟨true, none, state⟩, db') := by
  obtain ⟨res, state, db', hout, hplace', hends⟩ := h.outcome_hasNext hunsettled hsep hplace hfuel
  refine ⟨res, state, db', hends, hplace', ?_, ?_⟩
  · rw [CursorCall.on, CursorCall.answered, hout]
    cases res <;> rfl
  · rw [CursorCall.on, CursorCall.answered, Source.outcome_next, hout]
    cases res <;> rfl

end Stage

end RowChange

end RelStore
