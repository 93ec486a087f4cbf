/-
Rows that are stored or removed one after the other.

* `RowChange` — what a pass does with each of its rows, through a cache (`RowChange.run`) and on contents without one
  (`RowChange.onStore`);
* `RowChange.applied` — the contents after some rows, one after the other;
* `RowChange.Touches` — the tables that these rows may change, so all others stay (`RowChange.applied_of_not_touches`);
* `RowChange.Accepts` — rows that can be stored, in contents that are kept within the limit for texts;
* `RowChange.outcome_run` — one row: the cache does what is done without one, or has no frame for it and changes no row;
* `RowChange.refusal_of_error` — an error that is told together with the number of rows before.

Design notes.  Storage may refuse a row late, when an empty page was already appended for it.  So contents behind a
refusal are told row by row, and contents behind successes as they are.
-/
import RelStore.Operator.Change
import RelStore.Proofs.Store.PageTypes

namespace RelStore

open TableContents (grown)

/-- What is done with each row of a pass: it is stored in a table under the table's columns, or removed from where its
record id points. -/
inductive RowChange where
  | insert (txn : TxnId) (table : TableId) (schema : Schema)
  | delete (txn : TxnId)
deriving DecidableEq, Repr

namespace RowChange

/-- Which of the two changes it is. -/
def kind : RowChange → Mutation
  | insert .. => .insert
  | delete _ => .delete

/-- The call of a cache. -/
def call : RowChange → Row → CacheCall
  | insert txn table schema, row => .insert txn table { row with schema := schema, record := none }
  | delete txn, row => .delete txn row

/-- What is done with a row through a cache. -/
def run : RowChange → Row → DbM StorageError Unit
  | insert txn table schema, row => Database.insertRow txn table { row with schema := schema, record := none }
  | delete txn, row => Database.deleteRow txn row

/-- The same on contents without files and caches. -/
def onStore (c : Catalog) (s : Store) : RowChange → Row → Except StorageError Unit × Store
  | insert _ table schema, row => s.insertRow c table { row with schema := schema, record := none }
  | delete _, row => s.deleteRow c row

/-- The contents after some rows, one after the other, if none of them is refused. -/
def applied (change : RowChange) (c : Catalog) : List Row → Store → Except StorageError Store
  | [], s => .ok s
  | row :: rows, s =>
    match change.onStore c s row with
    | (.ok (), s) => change.applied c rows s
    | (.error e, _) => .error e

/-- The tables that the change of some rows may reach. -/
def Touches (rows : List Row) (id : TableId) : RowChange → Prop
  | insert _ table _ => id = table
  | delete _ => ∃ row ∈ rows, ∃ record, row.record = some record ∧ record.page.table = id

/-- Rows to store have a field for every column and texts within the limit. -/
def Accepts : RowChange → Row → Prop
  | insert _ _ schema, row => Row.Complete { row with schema := schema, record := none } ∧ ∀ f ∈ row.fields, f.Fits
  | delete _, _ => True

instance (change : RowChange) : DecidablePred fun row => change.Accepts row :=
  match change with
  | insert _ _ schema =>
    fun row => inferInstanceAs (Decidable (Row.Complete { row with schema := schema, record := none }
      ∧ ∀ f ∈ row.fields, f.Fits))
  | delete _ => fun _ => isTrue trivial

/-- Rows are stored in a registered table, whose columns have a text. -/
def Suits (c : Catalog) : RowChange → Prop
  | insert _ table schema => (∃ f, c.file table = .ok f ∧ f.schema = schema) ∧ schema.Covers
  | delete _ => True

variable {change : RowChange} {c : Catalog} {s t : Store} {row : Row} {rows : List Row} {id : TableId}

theorem applied_append (rows₁ rows₂ : List Row) (h : change.applied c rows₁ s = .ok t) :
    change.applied c (rows₁ ++ rows₂) s = change.applied c rows₂ t := by
  induction rows₁ generalizing s with
  | nil =>
    cases h
    rfl
  | cons row rows₁ ih =>
    rw [applied] at h
    rw [List.cons_append, applied]
    split at h
    · exact ih h
    · cases h

/-- One more row. -/
theorem applied_concat (h : change.applied c rows s = .ok t) {u : Store} (hrow : change.onStore c t row = (.ok (), u)) :
    change.applied c (rows ++ [row]) s = .ok u := by
  rw [applied_append rows [row] h, applied, hrow]
  rfl

/-! ### Tables that stay as they are -/

theorem onStore_of_not_touches (hid : ¬ change.Touches [row] id) : (change.onStore c s row).2 id = s id := by
  cases change with
  | insert txn table schema => exact Store.insertRow_of_ne hid
  | delete txn =>
    show (s.deleteRow c row).2 id = s id
    rw [Store.deleteRow]
    split
    · rfl
    · next record hrecord =>
      split
      · rfl
      · split
        · exact Store.put_of_ne _ (fun h => hid ⟨row, List.mem_singleton_self row, record, hrecord, h.symm⟩) _
        · rfl

/-- What is done with a row, and to which contents, is told by the tables that it touches. -/
theorem onStore_congr (h : ∀ id, change.Touches [row] id → s id = t id) :
    (change.onStore c s row).1 = (change.onStore c t row).1
      ∧ ∀ id, s id = t id → (change.onStore c s row).2 id = (change.onStore c t row).2 id := by
  have hput : ∀ {id : TableId} (table : TableId) (pages : TableContents), s id = t id →
      s.put table pages id = t.put table pages id := by
    intro id table pages hid
    rw [Store.put, Store.put, hid]
  cases change with
  | insert txn table schema =>
    have htable : s table = t table := h table rfl
    show (s.insertRow c table _).1 = (t.insertRow c table _).1 ∧ ∀ id, s id = t id →
      (s.insertRow c table _).2 id = (t.insertRow c table _).2 id
    rw [Store.insertRow, Store.insertRow, htable]
    split
    · exact ⟨rfl, fun _ => id⟩
    · split
      · split
        · exact ⟨rfl, fun _ => id⟩
        · dsimp only
          split
          · exact ⟨rfl, fun _ => hput table _⟩
          · exact ⟨rfl, fun _ => hput table _⟩
      · exact ⟨rfl, fun _ => id⟩
  | delete txn =>
    show (s.deleteRow c row).1 = (t.deleteRow c row).1 ∧ ∀ id, s id = t id →
      (s.deleteRow c row).2 id = (t.deleteRow c row).2 id
    rw [Store.deleteRow, Store.deleteRow]
    split
    · exact ⟨rfl, fun _ => id⟩
    · next record hrecord =>
      have htable : s record.page.table = t record.page.table :=
        h _ ⟨row, List.mem_singleton_self row, record, hrecord, rfl⟩
      rw [Store.page, Store.page, htable]
      split
      · exact ⟨rfl, fun _ => id⟩
      · split
        · exact ⟨rfl, fun _ => hput _ _⟩
        · exact ⟨rfl, fun _ => id⟩

theorem Touches.mono {rows' : List Row} (h : change.Touches rows id) (hsub : ∀ row ∈ rows, row ∈ rows') :
    change.Touches rows' id := by
  cases change with
  | insert txn table schema => exact h
  | delete txn =>
    obtain ⟨row, hrow, hrecord⟩ := h
    exact ⟨row, hsub row hrow, hrecord⟩

/-- Rows do nothing to tables that none of them touches. -/
theorem applied_of_not_touches (h : change.applied c rows s = .ok t) (hid : ¬ change.Touches rows id) :
    t id = s id := by
  induction rows generalizing s with
  | nil =>
    cases h
    rfl
  | cons row rows ih =>
    have hrow : ¬ change.Touches [row] id :=
      fun htouches => hid (htouches.mono fun _ h => List.mem_singleton.mp h ▸ List.mem_cons_self)
    have hrows : ¬ change.Touches rows id := fun htouches => hid (htouches.mono fun _ => List.mem_cons_of_mem _)
    have hsame := onStore_of_not_touches (c := c) (s := s) hrow
    rw [applied] at h
    split at h
    · next u hu =>
      rw [hu] at hsame
      exact (ih h hrows).trans hsame
    · cases h

/-! ### One row through a cache -/

/-- A row that is stored or removed keeps texts within the limit. -/
theorem each_fits_onStore (h : s.Each Fits) (hrow : change.Accepts row) : (change.onStore c s row).2.Each Fits := by
  cases change with
  | insert txn table schema => exact @CacheCall.each_fits_onStore c s (.insert txn table _) h hrow.2
  | delete txn => exact @CacheCall.each_fits_onStore c s (.delete txn row) h trivial

theorem row?_of_onStore_error {e : StorageError} (h : (change.onStore c s row).1 = .error e) (record : RecordId) :
    (change.onStore c s row).2.row? record = s.row? record := by
  cases change with
  | insert txn table schema => exact Store.row?_of_insertRow_error h record
  | delete txn => exact congrArg (·.row? record) (Store.eq_of_deleteRow_error h)

/-- Why a row is refused: it would be without a cache, or callers are in the way. -/
def Refuses (c : Catalog) (n : Nat) (held : List Handle) (s : Store) (row : Row) (cause : StorageError)
    (change : RowChange) : Prop :=
  (change.onStore c s row).1 = .error cause ∨ cause = .noFreeBuffer ∧ (n = 0 ∨ held ≠ [])

/-- What becomes of the contents `s` with one row: they change as without a cache; or the row is refused, and then every
row is where it was, and so are all tables that the row does not touch. -/
def Does (c : Catalog) (n : Nat) (held : List Handle) (s : Store) (row : Row) (change : RowChange) (t : Store) :
    Except StorageError Unit → Prop
  | .ok () => change.onStore c s row = (.ok (), t)
  | .error cause => change.Refuses c n held s row cause ∧ (∀ record, t.row? record = s.row? record)
    ∧ ∀ id, ¬ change.Touches [row] id → t id = s id

variable {n : Nat} {held : List Handle} {db db' : Database} {r : Except StorageError Unit}

theorem does_onStore (h : (r, t) = change.onStore c s row) : change.Does c n held s row t r := by
  cases r with
  | ok u => exact h.symm
  | error cause =>
    have herror : (change.onStore c s row).1 = .error cause := by rw [← h]
    have ht : t = (change.onStore c s row).2 := by rw [← h]
    rw [ht]
    exact ⟨.inl herror, row?_of_onStore_error herror, fun id hid => onStore_of_not_touches hid⟩

theorem outcome_call (change : RowChange) (row : Row) (db : Database) :
    ((change.call row).run.outcome db).2 = ((change.run row).outcome db).2 := by
  have hmap : ∀ op : DbM StorageError Unit,
      (((fun _ => none) <$> op : DbM StorageError (Option (PageId × Page.Cells))).outcome db).2
        = (op.outcome db).2 := by
    intro op
    rw [Fallible.outcome_map]
    rcases op.outcome db with ⟨e | x, db'⟩ <;> rfl
  cases change with
  | insert txn table schema => exact hmap _
  | delete txn => exact hmap _

theorem proper_call (hrow : change.Accepts row) : (change.call row).Proper := by
  cases change with
  | insert txn table schema => exact hrow.1
  | delete txn => trivial

/-- A cache that callers share does with a row what is done without one, or has no frame for its page.  Then the
contents are the same, but that an empty page may have been appended to the row's table. -/
theorem exists_onStore (h : db.Sound) (hfits : db.store.Each Fits) (hrow : change.Accepts row) :
    ∃ r db', (change.run row).outcome db = (r, db') ∧ db'.Sound ∧ db.Keeps db'
      ∧ ((r, db'.store) = change.onStore db.catalog db.store row
        ∨ r = .error .noFreeBuffer ∧ ¬ db.Idle ∧ (db'.store = db.store
          ∨ ∃ table slots k, change.Touches [row] table
            ∧ db'.store = db.store.put table (grown slots k (db.store table)))) := by
  cases change with
  | insert txn table schema =>
    have hlen : Row.Complete { row with schema := schema, record := none } := hrow.1
    obtain ⟨r, db', s, hout, hsound, hkeeps, hcut, hr⟩ := h.insertRow txn table hlen
    rw [hcut.eq_of_fits hfits] at hr
    refine ⟨r, db', hout, hsound, hkeeps, hr.imp_right ?_⟩
    rintro ⟨rfl, hidle, hsame | ⟨slots, k, hgrown⟩⟩
    · exact ⟨rfl, hidle, .inl hsame⟩
    · exact ⟨rfl, hidle, .inr ⟨table, slots, k, rfl, hgrown⟩⟩
  | delete txn =>
    obtain ⟨r, db', s, hout, hsound, hkeeps, hcut, hr⟩ := h.deleteRow txn row
    rw [hcut.eq_of_fits hfits] at hr
    refine ⟨r, db', hout, hsound, hkeeps, hr.imp_right ?_⟩
    rintro ⟨rfl, hidle, hsame⟩
    exact ⟨rfl, hidle, .inl hsame⟩

/-- One row of a pass through a cache that callers share. -/
theorem outcome_run (h : Pool.Sound n c ⟨db, held⟩) (hfits : db.store.Each Fits) (hrow : change.Accepts row) :
    ∃ r db', (change.run row).outcome db = (r, db') ∧ Pool.Sound n c ⟨db', held⟩ ∧ db'.store.Each Fits
      ∧ db'.running = db.running ∧ change.Does c n held db.store row db'.store r := by
  have hcatalog : db.catalog = c := h.catalog
  have hsound := (@Pool.sound_step _ n c h (.cache (change.call row)) (proper_call hrow)).1
  replace hsound : Pool.Sound n c ⟨((change.call row).run.outcome db).2, held⟩ := hsound
  rw [outcome_call] at hsound
  obtain ⟨r, db', hout, -, hkeeps, hr⟩ := exists_onStore h.sound hfits hrow
  rw [hout] at hsound
  rw [hcatalog] at hr
  refine ⟨r, db', hout, hsound, ?_⟩
  rcases hr with hr | ⟨rfl, hidle, hstore⟩
  · refine ⟨?_, hkeeps.running, does_onStore hr⟩
    have hstore : db'.store = (change.onStore c db.store row).2 := by rw [← hr]
    rw [hstore]
    exact each_fits_onStore hfits hrow
  · -- only callers that hold buffers keep the cache from having a frame
    have hbusy : n = 0 ∨ held ≠ [] := by
      rcases Nat.eq_zero_or_pos n with hzero | hpos
      · exact .inl hzero
      · exact .inr fun hheld => hidle (h.tended.idle hpos hheld)
    rcases hstore with hsame | ⟨table, slots, k, htouches, hgrown⟩
    · rw [hsame]
      exact ⟨hfits, hkeeps.running, .inr ⟨rfl, hbusy⟩, fun _ => rfl, fun _ _ => rfl⟩
    · rw [hgrown]
      refine ⟨hfits.put (Store.each_grown (hfits table) Store.fits_replicate), hkeeps.running, .inr ⟨rfl, hbusy⟩,
        Store.row?_put_grown db.store table slots k, fun id hid => Store.put_of_ne _ ?_ _⟩
      rintro rfl
      exact hid htouches

/-- A row is refused with an error that a pass tells together with the number of rows before. -/
theorem refusal_of_error (hsuits : change.Suits c) (h : Pool.Sound n c ⟨db, held⟩) {cause : StorageError}
    (hout : ((change.run row).outcome db).1 = .error cause) (kind : Mutation) (count : Nat) :
    refusal kind count cause = (true, .mutation kind count cause) := by
  have htold : ∀ {e : StorageError}, (∀ e', e ≠ .schema e') →
      refusal kind count e = (true, .mutation kind count e) := by
    intro e he
    cases e with
    | schema e' => exact absurd rfl (he e')
    | _ => rfl
  have hother : ¬ cause.OfSchema → ∀ e', cause ≠ .schema e' := by
    rintro hno e' rfl
    exact hno trivial
  have hcatalog : db.catalog = c := h.catalog
  have hsound : db.Sound := h.sound
  cases change with
  | insert txn table schema =>
    obtain ⟨⟨f, hf, rfl⟩, hcovers⟩ := hsuits
    have htyped : Database.Typed True db.catalog db := hsound.typed True
    rcases Database.insertRow_error htyped hsound.proper.keyed (hcatalog ▸ hf) hout with ⟨_, hsame, rfl, -⟩ | hno
    · obtain ⟨text, htext⟩ := Schema.text_of_covers hcovers
      rw [hsame.2 trivial]
      refine htold fun e' => ?_
      rw [StorageError.mismatch_of_text htext htext]
      nofun
    · exact htold (hother hno)
  | delete txn => exact htold (hother (Database.raises_deleteRow txn row db cause hout))

end RowChange

end RelStore
