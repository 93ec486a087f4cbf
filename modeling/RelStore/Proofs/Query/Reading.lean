/-
Scans: what a cursor over the pages of a table hands out.

* `TableContents.rowsFrom` — the rows of some pages by page and slot, up to a page that cannot be read;
* `Database.Steady` — a database whose contents are some fixed ones, up to long texts;
* `Database.Steady.getPage` — loading a page keeps it so;
* `HeapCursor.gives_search` — the search for a page with rows;
* `Source.follows_scan` — a scan hands out the rows of its table, and fails at a page that cannot be read;
* `Source.open_scan_fail` — a table without pages cannot be opened.

Design notes.  A buffer is loaded and evicted while a cursor goes on, so nothing is said about buffers here: all
that a cursor reads is told by the contents.
-/
import RelStore.Proofs.Query.Protocol
import RelStore.Proofs.Store.Refinement
import RelStore.Operator.Leaf

namespace RelStore

open Page (Cells)
open RelStore.Action (Gives)
open Fallible (follow)

variable {schema : Schema} {f : HeapFile} {s : Store} {c : Catalog} {db : Database} {n fuel : Nat}

/-! ### Rows of contents -/

namespace TableContents

/-- The rows in some cells, each at its address. -/
def pageRows (schema : Schema) (page : PageId) (cells : Cells) : List Row :=
  cells.zipIdx.filterMap fun p => p.1.map fun fields => ⟨schema, fields, some ⟨page, p.2⟩⟩

/-- The rows of some pages, the first of which is page `n`. They end at a page that cannot be read. -/
def rowsFrom (schema : Schema) (table : TableId) (n : Nat) : TableContents → List Row
  | [] => []
  | .ok cells :: pages => pageRows schema ⟨table, n⟩ cells ++ rowsFrom schema table (n + 1) pages
  | .error _ :: _ => []

/-- Why the first page that cannot be read cannot. -/
def fault : TableContents → Option StorageError
  | [] => none
  | .ok _ :: pages => fault pages
  | .error e :: _ => some e

/-- What holds of the fields in all cells holds of the fields of all rows. -/
theorem of_mem_rowsFrom {Q : List Field → Prop} {table : TableId} {n : Nat} {pages : TableContents}
    (hpages : ∀ cells, Except.ok cells ∈ pages → ∀ fields, some fields ∈ cells → Q fields) {row : Row}
    (hrow : row ∈ rowsFrom schema table n pages) : Q row.fields := by
  induction pages generalizing n with
  | nil => cases hrow
  | cons page pages ih =>
    cases page with
    | error e => cases hrow
    | ok cells =>
      rcases List.mem_append.mp hrow with hhead | htail
      · obtain ⟨⟨cell, i⟩, hcell, hfields⟩ := List.mem_filterMap.mp hhead
        obtain ⟨fields, rfl, rfl⟩ := Option.map_eq_some_iff.mp hfields
        exact hpages cells List.mem_cons_self fields (List.mem_of_getElem? (List.mem_zipIdx_iff_getElem?.mp hcell))
      · exact ih (fun cells hcells => hpages cells (List.mem_cons_of_mem _ hcells)) htail

/-- Where all pages can be read there is no fault. -/
theorem fault_of_readable {pages : TableContents} (h : ∀ page ∈ pages, Readable page) :
    fault pages = none := by
  induction pages with
  | nil => rfl
  | cons page pages ih =>
    obtain ⟨cells, rfl⟩ := h page List.mem_cons_self
    exact ih fun page hpage => h page (List.mem_cons_of_mem _ hpage)

end TableContents

/-- The rows in some slots, the first of which is slot `k`, are those of their cells. -/
theorem Page.map_withSchema_rows {page : PageId} {k : Nat} {slots : List (Option Row)}
    (hrecord : ∀ (i : Nat) (r : Row), slots[i]? = some (some r) → r.record = some ⟨page, k + i⟩) :
    (slots.filterMap fun s => s).map (·.withSchema schema)
      = ((slots.map (Option.map Row.fields)).zipIdx k).filterMap fun q =>
          q.1.map fun fields => (⟨schema, fields, some ⟨page, q.2⟩⟩ : Row) := by
  induction slots generalizing k with
  | nil => rfl
  | cons slot slots ih =>
    have htail := ih (k := k + 1) fun i r hr => by
      rw [hrecord (i + 1) r hr, Nat.add_assoc, Nat.add_comm 1 i]
    cases slot with
    | none => simpa using htail
    | some r =>
      have hr := hrecord 0 r rfl
      simp only [List.filterMap_cons, List.map_cons, List.zipIdx_cons, Option.map_some]
      exact List.cons_eq_cons.mpr ⟨by rw [Row.withSchema, hr, Nat.add_zero], htail⟩

/-- The rows of a page are those of its cells. -/
theorem Page.WellFormed.map_withSchema_rows {p : Page} (h : p.WellFormed) (schema : Schema) :
    p.rows.map (·.withSchema schema) = TableContents.pageRows schema p.id p.cells :=
  Page.map_withSchema_rows fun i r hr => by rw [Nat.zero_add]; exact h.record hr

namespace Database

/-- The contents are `s`, but for long texts that may be cut, and the cache can be used. -/
structure Steady (c : Catalog) (s : Store) (db : Database) : Prop where
  ready : Ready c db
  store : s.CutTo db.store

theorem Ready.steady (h : Ready c db) : Steady c db.store db :=
  ⟨h, Store.CutTo.refl _⟩

theorem Steady.store_eq (h : Steady c s db) {id : TableId} (hfits : ∀ page ∈ s id, Fits page) :
    db.store id = s id :=
  (h.store id).eq_of_fits hfits

theorem Steady.pageCount_eq (h : Steady c s db) (hf : c.file f.id = .ok f)
    (hfits : ∀ page ∈ s f.id, Fits page) : f.pageCount db.disk = (s f.id).length := by
  rw [← h.store_eq hfits, length_store (by rw [h.ready.catalog]; exact hf)]

/-- The rows of a cached page are those of its cells. -/
theorem Sound.map_rows_of_buffer? (h : db.Sound) {page : PageId} {b : Buffer} (hb : db.cache.buffer? page = some b)
    (schema : Schema) :
    b.page.rows.map (·.withSchema schema) = TableContents.pageRows schema page b.page.cells := by
  obtain ⟨f, -, hbacked⟩ := h.backed hb
  rw [hbacked.wellFormed.map_withSchema_rows, PageCache.id_of_buffer? h.coherent hb]

/-- A page that is loaded has the rows that the contents tell, or cannot be read, as the contents tell. -/
theorem Steady.getPage (h : Steady c s db) (hf : c.file f.id = .ok f)
    (hfits : ∀ page ∈ s f.id, Fits page) {page : Except StorageError Cells}
    (hpage : (s f.id)[n]? = some page) (schema : Schema) :
    ∃ r db', (Database.getPage ⟨f.id, n⟩).outcome db = (r, db') ∧ Steady c s db'
      ∧ r.map (fun b => b.page.rows.map (·.withSchema schema))
        = page.map (TableContents.pageRows schema ⟨f.id, n⟩) := by
  have hstore : db.store.page db.catalog ⟨f.id, n⟩ = page := by
    rw [h.ready.catalog, Store.page, hf, h.store_eq hfits, hpage]
  obtain ⟨r, db', hget, hsound, hkeeps, hcuts, hanswer⟩ := h.ready.sound.getPage ⟨f.id, n⟩
  refine ⟨r, db', hget, ⟨h.ready.of_keeps hsound hkeeps, h.store.trans
    (hcuts.store h.ready.sound.proper)⟩, ?_⟩
  cases hanswer with
  | @found b hb hcells =>
    rw [hstore] at hcells
    rw [hcells]
    exact congrArg Except.ok (hsound.map_rows_of_buffer? hb schema)
  | @refused e he =>
    rw [hstore] at he
    rw [he]
    rfl
  | full hfull => exact absurd hfull (h.ready.idle.not_full h.ready.sound)

end Database

open Database (Steady)
open TableContents (pageRows rowsFrom fault)

/-! ### Cursors -/

namespace HeapCursor

variable {b : HeapCursor} {x : Row} {rest : List Row}

/-- An open cursor that has the given rows still to hand out, under `schema`. -/
structure At (s : Store) (f : HeapFile) (schema : Schema) (rest : List Row) (b : HeapCursor) : Prop where
  opened : b.opened = true
  rows : b.pending.map (·.withSchema schema)
    ++ rowsFrom schema f.id b.nextPage ((s f.id).drop b.nextPage) = rest
  fault : fault ((s f.id).drop b.nextPage) = fault (s f.id)

theorem at_start : At s f schema (rowsFrom schema f.id 0 (s f.id)) ⟨true, 0, []⟩ :=
  ⟨rfl, rfl, rfl⟩

/-- Behind the last page nothing is left, and no page was unreadable. -/
theorem At.of_length_le (hb : At s f schema rest b) (hpending : b.pending = [])
    (hend : (s f.id).length ≤ b.nextPage) : rest = [] ∧ TableContents.fault (s f.id) = none := by
  have hdrop : (s f.id).drop b.nextPage = [] := List.drop_eq_nil_of_le hend
  constructor
  · rw [← hb.rows, hpending, hdrop]
    rfl
  · rw [← hb.fault, hdrop]
    rfl

/-- Before a page that cannot be read nothing is left. -/
theorem At.of_page_error (hb : At s f schema rest b) (hpending : b.pending = []) {e : StorageError}
    (hpage : (s f.id)[b.nextPage]? = some (.error e)) : rest = [] ∧ TableContents.fault (s f.id) = some e := by
  have hdrop := List.drop_eq_getElem?_toList_append (l := s f.id) (i := b.nextPage)
  rw [hpage] at hdrop
  constructor
  · rw [← hb.rows, hpending, hdrop]
    rfl
  · rw [← hb.fault, hdrop]
    rfl

/-- A page that was loaded has the first of the rows that are left. -/
theorem At.load (hb : At s f schema rest b) (hpending : b.pending = []) {cells : Cells}
    (hpage : (s f.id)[b.nextPage]? = some (.ok cells)) {rows : List Row}
    (hrows : rows.map (·.withSchema schema) = pageRows schema ⟨f.id, b.nextPage⟩ cells) :
    At s f schema rest ⟨b.opened, b.nextPage + 1, rows⟩ := by
  have hdrop := List.drop_eq_getElem?_toList_append (l := s f.id) (i := b.nextPage)
  rw [hpage] at hdrop
  refine ⟨hb.opened, ?_, ?_⟩
  · have hold := hb.rows
    rw [hpending, hdrop] at hold
    rw [← hold, hrows]
    rfl
  · rw [← hb.fault, hdrop]
    rfl

/-- Whether there is a row, or why that cannot be said. -/
def searchAnswer : List Row → Option StorageError → Except StorageError Bool
  | _ :: _, _ => .ok true
  | [], none => .ok false
  | [], some e => .error e

theorem outcome_search (b : HeapCursor) (db : Database) :
    (search f (fuel + 1)).outcome (b, db) =
      if b.pending ≠ [] then (.ok true, b, db)
      else if f.pageCount db.disk ≤ b.nextPage then (.ok false, b, db)
      else match (Database.getPage ⟨f.id, b.nextPage⟩).outcome db with
        | (.ok buffer, db) => (search f fuel).outcome (⟨b.opened, b.nextPage + 1, buffer.page.rows⟩, db)
        | (.error e, db) => (.error e, b, db) := by
  rw [search]
  simp only [Fallible.outcome_bind, Action.outcome_state, Fallible.follow_ok, Fallible.outcome_ite,
    Fallible.outcome_pure, Action.outcome_database, Action.outcome_update, Action.outcome_ofDb]
  congr 2
  generalize (Database.getPage ⟨f.id, b.nextPage⟩).outcome db = r
  obtain ⟨x | e, db'⟩ := r <;> rfl

/-- A closed cursor is opened if there are pages. -/
theorem outcome_start (hclosed : b.opened = false) (db : Database) :
    (start f).outcome (b, db) =
      if f.pageCount db.disk = 0 then (.error .emptyFile, b, db) else (.ok (), { b with opened := true }, db) := by
  simp only [start, Fallible.outcome_bind, Action.outcome_state, Fallible.follow_ok, hclosed, Bool.false_eq_true,
    if_false, Action.outcome_database, Fallible.outcome_ite, Fallible.outcome_throw, Action.outcome_update]

/-- An open cursor is closed and opened again. -/
theorem outcome_rewind (hopened : b.opened = true) (db : Database) :
    (rewind f).outcome (b, db) = (start f).outcome (closed, db) := by
  simp only [rewind, close, Fallible.outcome_bind, Action.outcome_state, Fallible.follow_ok, hopened, if_true,
    Action.outcome_update]

theorem outcome_hasNext (hopened : b.opened = true) (db : Database) :
    (hasNext f fuel).outcome (b, db) = (search f fuel).outcome (b, db) := by
  simp only [hasNext, Fallible.outcome_bind, Action.outcome_state, Fallible.follow_ok, hopened, if_true]

/-- The search loads pages until there is a row, and changes nothing about the rows that are left. -/
theorem gives_search (hf : c.file f.id = .ok f) (hfits : ∀ page ∈ s f.id, Fits page)
    (hfuel : (s f.id).length - b.nextPage < fuel) (hb : At s f schema rest b) :
    Gives (Steady c s) (search f fuel) b (searchAnswer rest (fault (s f.id)))
      fun b' => At s f schema rest b' ∧ (rest ≠ [] → b'.pending ≠ []) := by
  -- on the fuel; a page that is loaded moves the cursor towards the end
  induction fuel generalizing b with
  | zero => omega
  | succ fuel ih =>
    intro db hdb
    rw [outcome_search, hdb.pageCount_eq hf hfits]
    by_cases hnil : b.pending = []
    · rw [if_neg (not_not_intro hnil)]
      by_cases hend : (s f.id).length ≤ b.nextPage
      · obtain ⟨rfl, hfault⟩ := hb.of_length_le hnil hend
        rw [if_pos hend, hfault]
        exact ⟨b, db, rfl, hdb, hb, fun h => absurd rfl h⟩
      · rw [if_neg hend]
        have hpage := List.getElem?_eq_getElem (Nat.not_le.mp hend)
        obtain ⟨r, db', hget, hdb', hr⟩ := hdb.getPage hf hfits hpage schema
        rw [hget]
        cases hcells : (s f.id)[b.nextPage] with
        | error e =>
          rw [hcells] at hr hpage
          cases r with
          | ok buffer => cases hr
          | error e' =>
            cases hr
            obtain ⟨rfl, hfault⟩ := hb.of_page_error hnil hpage
            rw [hfault]
            exact ⟨b, db', rfl, hdb', hb, fun h => absurd rfl h⟩
        | ok cells =>
          rw [hcells] at hr hpage
          cases r with
          | error e => cases hr
          | ok buffer =>
            -- the page may be without rows, so the search goes on with it
            have hloaded := hb.load hnil hpage (Except.ok.inj hr)
            exact ih (show (s f.id).length - (b.nextPage + 1) < fuel by omega) hloaded db' hdb'
    · -- a row of the page that was loaded last
      rw [if_pos hnil]
      have hanswer : searchAnswer rest (fault (s f.id)) = .ok true := by
        obtain ⟨y, pending, hpending⟩ := List.exists_cons_of_ne_nil hnil
        rw [← hb.rows, hpending]
        rfl
      rw [hanswer]
      exact ⟨b, db, rfl, hdb, hb, fun _ => hnil⟩

/-- An open cursor answers whether there is a row. -/
theorem gives_hasNext (hf : c.file f.id = .ok f) (hfits : ∀ page ∈ s f.id, Fits page)
    (hfuel : (s f.id).length < fuel) (hb : At s f schema rest b) :
    Gives (Steady c s) (hasNext f fuel) b (searchAnswer rest (fault (s f.id)))
      fun b' => At s f schema rest b' ∧ (rest ≠ [] → b'.pending ≠ []) := by
  refine Action.gives_state.bind ?_
  rintro _ rfl
  rw [if_pos hb.opened]
  exact gives_search hf hfits (by omega) hb

/-- A cursor with rows of a page hands out the first of them. -/
theorem gives_next {P : Database → Prop} {r : Row} {tail : List Row} (hopen : b.opened = true)
    (hpending : b.pending = r :: tail) :
    Gives P (next f (fuel + 1)) b (.ok r) fun b' => b' = { b with pending := tail } := by
  intro db hdb
  have hmore : (hasNext f (fuel + 1)).outcome (b, db) = (.ok true, b, db) := by
    simp only [hasNext, Fallible.outcome_bind, Action.outcome_state, Fallible.follow_ok, hopen, if_true,
      outcome_search, hpending, ne_eq, reduceCtorEq, not_false_eq_true]
  refine ⟨_, db, ?_, hdb, rfl⟩
  simp only [next, Fallible.outcome_bind, hmore, Fallible.follow_ok, if_true, Action.outcome_state, hpending,
    Action.outcome_update, Fallible.outcome_pure]

end HeapCursor

/-! ### Scans -/

namespace Source

open HeapCursor (At)

/-- The rows that a scan of some contents hands out. -/
def scanRows (s : Store) (f : HeapFile) (schema : Schema) : List Row :=
  rowsFrom schema f.id 0 (s f.id)

theorem gives_start (hf : c.file f.id = .ok f) (hfits : ∀ page ∈ s f.id, Fits page) (hpages : s f.id ≠ []) :
    Gives (Steady c s) (HeapCursor.start f) HeapCursor.closed (.ok ())
      (At s f schema (scanRows s f schema)) := by
  intro db hdb
  have hcount : f.pageCount db.disk ≠ 0 := by
    rw [hdb.pageCount_eq hf hfits]
    exact fun h => hpages (List.length_eq_zero_iff.mp h)
  refine ⟨⟨true, 0, []⟩, db, ?_, hdb, HeapCursor.at_start⟩
  rw [HeapCursor.outcome_start rfl, if_neg hcount]
  rfl

/-- A scan hands out the rows of its table, and fails at a page that cannot be read. -/
theorem follows_scan (hf : c.file f.id = .ok f) (hfits : ∀ page ∈ s f.id, Fits page)
    (hpages : s f.id ≠ []) (hfuel : (s f.id).length < fuel) :
    (scan fuel f schema).Follows (Steady c s) (fun b => b = HeapCursor.closed) (fun b => b.opened = true)
      (At s f schema) (scanRows s f schema) ((fault (s f.id)).map .storage) := by
  have hmore : ∀ {rest : List Row} {b : HeapCursor}, At s f schema rest b → Gives (Steady c s)
      ((HeapCursor.hasNext f fuel).wrapError ExecError.storage) b
      ((HeapCursor.searchAnswer rest (fault (s f.id))).mapError .storage)
      fun b' => At s f schema rest b' ∧ (rest ≠ [] → b'.pending ≠ []) := fun hb =>
    (HeapCursor.gives_hasNext hf hfits hfuel hb).wrapError ExecError.storage
  obtain ⟨fuel, rfl⟩ : ∃ n, fuel = n + 1 := ⟨fuel - 1, by omega⟩
  refine ⟨fun hb => hb.opened, ?_, ?_, fun _ => rfl, ?_, ?_⟩
  · rintro b rfl
    exact (gives_start hf hfits hpages).wrapError ExecError.storage
  · intro b hb
    refine Gives.wrapError (r := .ok ()) ExecError.storage fun db hdb => ?_
    rw [HeapCursor.outcome_rewind hb]
    exact gives_start hf hfits hpages db hdb
  · intro x rest b hb
    refine (hmore hb).bind fun b₁ hb₁ => ?_
    obtain ⟨r, tail, hpending⟩ := List.exists_cons_of_ne_nil (hb₁.2 (List.cons_ne_nil x rest))
    have hrows := hb₁.1.rows
    rw [hpending, List.map_cons, List.cons_append] at hrows
    obtain ⟨hr, htail⟩ := List.cons_eq_cons.mp hrows
    have hnext : Gives (Steady c s) (HeapCursor.next f (fuel + 1)) b₁ (.ok r) _ :=
      HeapCursor.gives_next hb₁.1.opened hpending
    refine (hnext.wrapError ExecError.storage).bind ?_
    rintro _ rfl
    show Gives _ (pure (some (r.withSchema schema))) _ _ _
    rw [hr]
    exact Action.gives_pure ⟨hb₁.1.opened, htail, hb₁.1.fault⟩
  · intro b hb
    have hend := hmore hb
    cases hfault : fault (s f.id) with
    | none =>
      rw [hfault] at hend
      exact hend.bind fun b₁ hb₁ => Action.gives_pure hb₁.1
    | some cause =>
      rw [hfault] at hend
      exact (hend.mono fun b₁ hb₁ => hb₁.1.opened).bind_error

/-- A table without pages cannot be opened. -/
theorem open_scan_fail (hf : c.file f.id = .ok f) (hpages : s f.id = []) :
    Gives (Steady c s) (scan fuel f schema).openBody HeapCursor.closed (.error (.storage .emptyFile))
      fun _ => True := by
  refine Gives.wrapError (r := .error .emptyFile) ExecError.storage fun db hdb => ?_
  have hcount : f.pageCount db.disk = 0 := by
    rw [hdb.pageCount_eq hf (by rw [hpages]; exact fun _ h => by cases h), hpages, List.length_nil]
  exact ⟨HeapCursor.closed, db, by rw [HeapCursor.outcome_start rfl, if_pos hcount], hdb, trivial⟩

end Source

end RelStore
