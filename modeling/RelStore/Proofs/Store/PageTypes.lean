/-
Cached pages have the columns of their tables.

* `Database.Typed` — every cached page is well-formed, and has the types of its table's columns, if that is registered;
* `Database.typed_getPage`, `Database.typed_insertRow` and their like — one lemma for each operation of a cache;
* `Session.typed_step` — it stays so as long as no table comes to have other columns than its cached pages;
* `Database.types_of_getPage` — so the rows on a page have the types of their table;
* `Database.insertRow_error` — what a row is refused for; `Database.insertRow_error_of_types` — a row of these types is
  not refused for its schema.

Design notes.  Nothing is assumed of the files.  Bytes that cannot be decoded are refused, and whatever can be decoded
has the types that it was decoded for; so files may change under the cache all the time.
-/
import RelStore.Proofs.Catalog.Registration
import RelStore.Proofs.Store.Errors
import RelStore.Proofs.Store.Flushing
import RelStore.Proofs.Store.Sessions

namespace RelStore

open Fallible (follow)

namespace Catalog

theorem Proper.keyed {c : Catalog} (h : c.Proper) : c.Keyed :=
  fun id t ht => (h id t ht).1

theorem Keyed.id_of_file {c : Catalog} (h : c.Keyed) {id : TableId} {f : HeapFile} (hf : c.file id = .ok f) :
    f.id = id := by
  obtain ⟨t, ht, rfl⟩ := file_eq_ok_iff.mp hf
  exact h id t ht

end Catalog

/-- Columns have the same types, and if they are `named` also the same names. -/
def Schema.Matches (named : Prop) (a b : Schema) : Prop :=
  a.types = b.types ∧ (named → a = b)

theorem Schema.matches_refl (named : Prop) (a : Schema) : a.Matches named a :=
  ⟨rfl, fun _ => rfl⟩

namespace Database

variable {named : Prop} {c : Catalog} {db db' : Database} {page : PageId} {b : Buffer} {f : HeapFile} {row : Row}

/-- Every cached page is well-formed.  If its table is registered, it has the types of the table's columns, or also
their names. -/
structure Typed (named : Prop) (c : Catalog) (db : Database) : Prop where
  coherent : db.cache.Coherent
  catalog : db.catalog = c
  wellFormed : ∀ {page : PageId} {b : Buffer}, db.cache.buffer? page = some b → b.page.WellFormed
  agrees : ∀ {page : PageId} {b : Buffer} {f : HeapFile}, db.cache.buffer? page = some b → c.file page.table = .ok f →
    b.page.schema.Matches named f.schema

/-- It depends on nothing but the pages in the buffers. -/
theorem Typed.of_pages (h : Typed named c db) (hcoherent : db'.cache.Coherent) (hcatalog : db'.catalog = db.catalog)
    (hpages : ∀ page, (db'.cache.buffer? page).map Buffer.page = (db.cache.buffer? page).map Buffer.page) :
    Typed named c db' := by
  have hcached : ∀ {page b'}, db'.cache.buffer? page = some b' →
      ∃ b, db.cache.buffer? page = some b ∧ b.page = b'.page := by
    intro page b' hb'
    have hpage := hpages page
    rw [hb'] at hpage
    exact Option.map_eq_some_iff.mp hpage.symm
  refine ⟨hcoherent, hcatalog.trans h.catalog, fun hb' => ?_, fun hb' hf => ?_⟩
  · obtain ⟨b, hb, heq⟩ := hcached hb'
    rw [← heq]
    exact h.wellFormed hb
  · obtain ⟨b, hb, heq⟩ := hcached hb'
    rw [← heq]
    exact h.agrees hb hf

theorem Typed.follow {ε α β : Type} {r : Except ε α × Database} {next : α → Database → Except ε β × Database}
    (h : Typed named c r.2) (hnext : ∀ x, r.1 = .ok x → Typed named c (next x r.2).2) :
    Typed named c (follow r next).2 := by
  obtain ⟨e | x, db'⟩ := r
  · exact h
  · exact hnext x rfl

theorem typed_ofSize {n : Nat} (hcache : db.cache = PageCache.ofSize n) : Typed named db.catalog db := by
  have hnone : ∀ page, db.cache.buffer? page = none := by
    rw [hcache]
    exact PageCache.buffer?_ofSize n
  refine ⟨by rw [hcache]; exact PageCache.coherent_ofSize n, rfl, fun hb => ?_, fun hb _ => ?_⟩
  · cases hb.symm.trans (hnone _)
  · cases hb.symm.trans (hnone _)

/-! ### Pages come and go -/

theorem typed_writeBack (h : Typed named c db) (frame : Nat) : Typed named c ((writeBack frame).outcome db).2 := by
  refine h.of_pages (spares_writeBack h.coherent frame).coherent ?_ (map_buffer?_writeBack (fun _ => rfl) frame db)
  rcases eq_of_writeBack frame db with ⟨r, heq⟩ | ⟨d, heq⟩
  · rw [heq]
  · rw [heq]

theorem typed_findFrame (h : Typed named c db) : Typed named c (findFrame.outcome db).2 := by
  have hcoherent := (spares_findFrame h.coherent).coherent
  rw [outcome_findFrame] at hcoherent ⊢
  exact h.of_pages hcoherent rfl fun page => congrArg _ (PageCache.buffer?_sweep db.cache page)

theorem typed_put (h : Typed named c db) {frame : Nat} (hframe : frame < db.cache.clock.frames.length) {p : Page}
    (hnew : db.cache.buffer? p.id = none) (hf : c.file p.id.table = .ok f) (hwell : p.WellFormed)
    (hschema : p.schema = f.schema) :
    let loaded : Buffer := { serial := db.nextSerial, page := p }
    Typed named c { db with cache := db.cache.put frame loaded, nextSerial := db.nextSerial + 1 } := by
  intro loaded
  have hcached : ∀ {page b}, (db.cache.put frame loaded).buffer? page = some b →
      page = p.id ∧ b = loaded ∨ db.cache.buffer? page = some b := by
    intro page b hb
    rw [PageCache.buffer?_put h.coherent hframe] at hb
    split at hb
    · next hid => exact .inl ⟨hid.symm, (Option.some.inj hb).symm⟩
    · split at hb
      · cases hb
      · exact .inr hb
  refine ⟨h.coherent.put hframe hnew, h.catalog, fun hb => ?_, fun {page b f'} hb hf' => ?_⟩
  · rcases hcached hb with ⟨-, rfl⟩ | hb
    · exact hwell
    · exact h.wellFormed hb
  · rcases hcached hb with ⟨rfl, rfl⟩ | hb
    · cases hf.symm.trans hf'
      show p.schema.Matches named f.schema
      rw [hschema]
      exact Schema.matches_refl named f.schema
    · exact h.agrees hb hf'

/-- A page that comes in was read from the file of its table. -/
theorem typed_loadPage (h : Typed named c db) (hnone : db.cache.buffer? page = none) :
    Typed named c ((loadPage page).outcome db).2 := by
  rw [outcome_loadPage, h.catalog]
  refine Typed.follow h fun f hf => ?_
  dsimp only
  split
  · exact h
  · exact h
  · next p hread =>
    obtain ⟨hwell, hid, hschema⟩ := HeapFile.wellFormed_of_readPage hread
    have hfound := typed_findFrame h
    refine hfound.follow fun frame hframe => ?_
    have hwritten := typed_writeBack hfound frame
    have hframes := (spares_writeBack hfound.coherent frame).frames
    refine hwritten.follow fun _ _ => ?_
    refine typed_put hwritten (by rw [hframes]; exact (free_of_findFrame hframe).1) ?_ (by rw [hid]; exact hf) hwell
      hschema
    -- neither the sweep nor the writing brings the page in
    rw [hid, ← Option.map_eq_none_iff (f := Buffer.page), map_buffer?_writeBack (fun _ => rfl), outcome_findFrame]
    show (PageCache.buffer? { db.cache with clock := db.cache.clock.evict.2 } page).map Buffer.page = none
    rw [PageCache.buffer?_sweep, hnone]
    rfl

theorem typed_getPage (h : Typed named c db) (page : PageId) : Typed named c ((getPage page).outcome db).2 := by
  rw [outcome_getPage]
  cases ht : db.cache.touch page with
  | none => exact typed_loadPage h (PageCache.touch_eq_none_iff.mp ht)
  | some found =>
    obtain ⟨b, cache⟩ := found
    obtain ⟨hcoherent, -, hbuffers, -⟩ := h.coherent.touch ht
    exact h.of_pages hcoherent rfl fun page => congrArg _ (hbuffers page)

/-- Who asks for a page of a table gets one with the types of the table's columns. -/
theorem Typed.page_of_getPage (h : Typed named c db) (hf : c.file page.table = .ok f)
    (hget : ((getPage page).outcome db).1 = .ok b) : b.page.WellFormed ∧ b.page.schema.Matches named f.schema :=
  have hcached := buffer?_of_getPage h.coherent hget
  ⟨(typed_getPage h page).wellFormed hcached, (typed_getPage h page).agrees hcached hf⟩

/-! ### Changes of tables -/

theorem typed_findRoom (h : Typed named c db) (table : TableId) (first count : Nat) :
    Typed named c ((findRoom table first count).outcome db).2 := by
  induction count generalizing db first with
  | zero => exact h
  | succ count ih =>
    rw [outcome_findRoom_succ]
    have hget := typed_getPage h ⟨table, first⟩
    refine hget.follow fun b _ => ?_
    split
    · exact hget
    · exact ih hget (first + 1)

/-- An empty page goes to the file first, and comes in from there. -/
theorem typed_roomFor (h : Typed named c db) (f : HeapFile) : Typed named c ((roomFor f).outcome db).2 := by
  rw [outcome_roomFor]
  have hfind := typed_findRoom h f.id 0 (f.pageCount db.disk)
  refine hfind.follow fun found _ => ?_
  cases found with
  | some page => exact hfind
  | none =>
    refine Typed.follow hfind fun p _ => ?_
    refine Typed.follow hfind fun d _ => ?_
    exact hfind.of_pages hfind.coherent rfl fun _ => rfl

/-- Another page with the same columns in a cached buffer, marked as changed. -/
theorem typed_change (h : Typed named c db) (hb : db.cache.buffer? page = some b) {p : Page} (hwell : p.WellFormed)
    (hid : p.id = b.page.id) (hschema : p.schema = b.page.schema) (txn : TxnId) :
    Typed named c { db with cache :=
      (db.cache.modify page fun b => { b with page := p }).markChanged txn page } := by
  have hmodify : (db.cache.modify page fun b => { b with page := p }).Coherent := by
    refine h.coherent.modify fun b' hb' => ?_
    rw [hb] at hb'
    cases hb'
    exact hid
  have hcached : ∀ {q b'},
      ((db.cache.modify page fun b => { b with page := p }).markChanged txn page).buffer? q = some b' →
        q = page ∧ b'.page = p ∨ db.cache.buffer? q = some b' := by
    intro q b' hb'
    rw [PageCache.buffer?_markChanged hmodify, PageCache.buffer?_modify h.coherent] at hb'
    split at hb'
    · next heq =>
      rw [← heq, hb] at hb'
      cases hb'
      exact .inl ⟨heq.symm, rfl⟩
    · exact .inr hb'
  refine ⟨hmodify.markChanged txn page, h.catalog, fun hb' => ?_, fun hb' hf => ?_⟩
  · rcases hcached hb' with ⟨-, hp⟩ | hb'
    · rw [hp]
      exact hwell
    · exact h.wellFormed hb'
  · rcases hcached hb' with ⟨rfl, hp⟩ | hb'
    · rw [hp, hschema]
      exact h.agrees hb hf
    · exact h.agrees hb' hf

theorem typed_insertRow (h : Typed named c db) (txn : TxnId) (table : TableId)
    (hrow : row.Complete) : Typed named c ((insertRow txn table row).outcome db).2 := by
  rw [outcome_insertRow]
  refine Typed.follow h fun f _ => ?_
  dsimp only
  split
  · have hroom := typed_roomFor h f
    refine hroom.follow fun page _ => ?_
    have hget := typed_getPage hroom page
    refine hget.follow fun b hb => ?_
    have hcached := buffer?_of_getPage hroom.coherent hb
    refine Typed.follow hget fun result hresult => ?_
    obtain ⟨hwell', hid, hschema, -⟩ := (hget.wellFormed hcached).insert hrow hresult
    exact typed_change hget hcached hwell' hid hschema txn
  · exact h

theorem typed_deleteRow (h : Typed named c db) (txn : TxnId) (row : Row) :
    Typed named c ((deleteRow txn row).outcome db).2 := by
  rw [outcome_deleteRow]
  split
  · exact h
  · next record hrecord =>
    refine Typed.follow h fun f _ => ?_
    split
    · exact h
    · have hget := typed_getPage h record.page
      refine hget.follow fun b hb => ?_
      have hcached := buffer?_of_getPage h.coherent hb
      refine Typed.follow hget fun p hp => ?_
      have hpage := (PageCache.id_of_buffer? hget.coherent hcached).symm
      obtain ⟨hwell', hid, hschema, -⟩ := (hget.wellFormed hcached).delete hrecord hpage hp
      exact typed_change hget hcached hwell' hid hschema txn

/-! ### Flushes -/

theorem typed_writePages (h : Typed named c db) (pages : List PageId) :
    Typed named c ((writePages pages).outcome db).2 := by
  induction pages generalizing db with
  | nil => exact h
  | cons page pages ih =>
    rw [outcome_writePages_cons]
    cases db.cache.pageTable.get? page with
    | none => exact ih h
    | some frame =>
      have hwritten := typed_writeBack h frame
      exact hwritten.follow fun _ _ => ih hwritten

theorem typed_forget (h : Typed named c db) (changed : Assoc TxnId (List PageId)) :
    Typed named c { db with cache := { db.cache with changed := changed } } :=
  h.of_pages (spares_forget h.coherent changed).coherent rfl fun _ => rfl

theorem typed_flush (h : Typed named c db) : Typed named c (flush.outcome db).2 := by
  rw [outcome_flush]
  have hwritten := typed_writePages h db.cache.pageTable.keys
  exact hwritten.follow fun _ _ => typed_forget hwritten {}

theorem typed_flushPages (h : Typed named c db) (txn : TxnId) : Typed named c ((flushPages txn).outcome db).2 := by
  rw [outcome_flushPages]
  exact typed_writePages (typed_forget h _) _

theorem Typed.map {ε α β : Type} {op : DbM ε α} {g : α → β} (h : Typed named c (op.outcome db).2) :
    Typed named c ((g <$> op).outcome db).2 := by
  rw [Fallible.outcome_map]
  exact h.follow fun _ _ => h

/-- Who holds a buffer does not change its page. -/
theorem typed_recount (h : Typed named c db) (hd : Handle) (recount : Nat → Nat) :
    Typed named c (db.modifyBuffer hd fun b => { b with holders := recount b.holders }) := by
  have helsewhere : ∀ {db' : Database}, db'.cache = db.cache → db'.catalog = db.catalog → Typed named c db' := by
    intro db' hcache hcatalog
    exact h.of_pages (by rw [hcache]; exact h.coherent) hcatalog fun page => by rw [hcache]
  unfold modifyBuffer
  dsimp only
  split
  · split
    · refine h.of_pages (h.coherent.modify fun _ _ => rfl) rfl fun page => ?_
      show ((db.cache.modify hd.page _).buffer? page).map Buffer.page = _
      rw [PageCache.buffer?_modify h.coherent]
      split
      · rw [Option.map_map]
        rfl
      · rfl
    · split
      · exact helsewhere rfl rfl
      · exact h
  · split
    · exact helsewhere rfl rfl
    · exact h

/-- Every call of a cache keeps it so. -/
theorem typed_call (h : Typed named c db) {call : CacheCall} (hcall : call.Proper) :
    Typed named c (call.run.outcome db).2 := by
  cases call with
  | getPage page => exact (typed_getPage h page).map
  | insert txn table row => exact (typed_insertRow h txn table hcall).map
  | delete txn row => exact (typed_deleteRow h txn row).map
  | flush => exact (typed_flush h).map
  | flushPages txn => exact (typed_flushPages h txn).map

/-! ### Rows of the right types -/

/-- The rows on a page have the types of their table. -/
theorem types_of_getPage (h : Typed named c db) (hf : c.file page.table = .ok f)
    (hget : ((getPage page).outcome db).1 = .ok b) :
    ∀ row ∈ b.page.rows, row.fields.map Field.type = f.schema.types := by
  obtain ⟨hwell, hschema⟩ := h.page_of_getPage hf hget
  intro row hrow
  obtain ⟨slot, hslot, hsome⟩ := List.mem_filterMap.mp hrow
  obtain ⟨i, hi⟩ := List.mem_iff_getElem?.mp hslot
  obtain rfl : slot = some row := hsome
  rw [← hschema.1]
  exact hwell.types hi

/-- Room for a row is found in its own table. -/
theorem table_of_roomFor (hroom : ((roomFor f).outcome db).1 = .ok page) : page.table = f.id := by
  have hfind : ∀ {count first : Nat} {db : Database} {found : PageId},
      ((findRoom f.id first count).outcome db).1 = .ok (some found) → found.table = f.id := by
    intro count
    induction count with
    | zero => exact fun h => nomatch h
    | succ count ih =>
      intro first db found h
      rw [outcome_findRoom_succ] at h
      obtain ⟨b, -, heq⟩ := Fallible.exists_of_follow_ok h
      rw [heq] at h
      split at h
      · cases h
        rfl
      · exact ih h
  rw [outcome_roomFor] at hroom
  obtain ⟨found, hfound, heq⟩ := Fallible.exists_of_follow_ok hroom
  rw [heq] at hroom
  cases found with
  | some page' =>
    cases hroom
    exact hfind hfound
  | none =>
    obtain ⟨p, -, heq⟩ := Fallible.exists_of_follow_ok hroom
    rw [heq] at hroom
    obtain ⟨d, -, heq'⟩ := Fallible.exists_of_follow_ok hroom
    rw [heq'] at hroom
    cases hroom
    rfl

/-- Why a row is refused: its columns or its fields differ from the table's, or the error tells of no schema. -/
theorem insertRow_error (h : Typed named c db) (hkeyed : c.Keyed) {table : TableId} (hf : c.file table = .ok f)
    {txn : TxnId} {e : StorageError} (herror : ((insertRow txn table row).outcome db).1 = .error e) :
    (∃ schema, schema.Matches named f.schema ∧ e = .mismatch schema row.schema
        ∧ ¬ (row.schema.agrees f.schema = true ∧ Row.wellTyped f.schema row.fields = true)) ∨ ¬ e.OfSchema := by
  rw [outcome_insertRow, h.catalog, hf, Fallible.follow_ok] at herror
  by_cases hfits : row.schema.agrees f.schema = true
  · rw [if_pos hfits] at herror
    have hroom := typed_roomFor h f
    rcases Fallible.error_of_follow herror with hno | ⟨page, hpage, herror⟩
    · exact .inr (raises_roomFor f _ _ hno)
    rcases Fallible.error_of_follow herror with hno | ⟨b, hb, herror⟩
    · exact .inr (raises_getPage page _ _ hno)
    rcases Fallible.error_of_follow herror with hno | ⟨result, -, herror⟩
    · have hf' : c.file page.table = .ok f := by
        rw [table_of_roomFor hpage, hkeyed.id_of_file hf]
        exact hf
      obtain ⟨-, hcolumns⟩ := hroom.page_of_getPage hf' hb
      replace hno : b.page.insert row = .error e := hno
      have hagrees : row.schema.agrees b.page.schema = true := by
        rw [Schema.agrees, hcolumns.1]
        exact hfits
      have hsame : Row.wellTyped b.page.schema row.fields = Row.wellTyped f.schema row.fields := by
        rw [Row.wellTyped, Row.wellTyped, hcolumns.1]
      rw [Page.insert, hagrees, hsame, Bool.true_and] at hno
      by_cases htyped : Row.wellTyped f.schema row.fields = true
      · rw [if_pos htyped] at hno
        split at hno <;> cases hno
        exact .inr not_false
      · rw [if_neg htyped] at hno
        cases hno
        exact .inl ⟨_, hcolumns, rfl, fun hboth => htyped hboth.2⟩
    · cases herror
  · rw [if_neg hfits] at herror
    cases herror
    exact .inl ⟨_, Schema.matches_refl named f.schema, rfl, fun hboth => hfits hboth.1⟩

/-- A row of the types of its table is not refused for its schema, whatever else may be in its way. -/
theorem insertRow_error_of_types (h : Typed named c db) (hkeyed : c.Keyed) {table : TableId}
    (hf : c.file table = .ok f) (hschema : row.schema.types = f.schema.types)
    (htypes : row.fields.map Field.type = f.schema.types) {txn : TxnId} {e : StorageError}
    (herror : ((insertRow txn table row).outcome db).1 = .error e) : ¬ e.OfSchema := by
  rcases insertRow_error h hkeyed hf herror with ⟨-, -, -, hnot⟩ | hno
  · exact absurd ⟨Schema.agrees_iff.mpr hschema, Page.wellTyped_of_types htypes⟩ hnot
  · exact hno

/-- Where cache and disk fit together, cached pages have the columns of their tables. -/
theorem Sound.typed (h : db.Sound) (named : Prop) : Typed named db.catalog db := by
  refine ⟨h.coherent, rfl, fun hb => ?_, fun hb hf' => ?_⟩
  · obtain ⟨_, -, hbacked⟩ := h.backed hb
    exact hbacked.wellFormed
  · obtain ⟨f, hf, hbacked⟩ := h.backed hb
    cases hf.symm.trans hf'
    rw [hbacked.schema]
    exact Schema.matches_refl named _

end Database

/-! ### Sessions -/

/-- Whether the rows of a call have as many fields as columns. -/
def SessionCall.Proper : SessionCall → Prop
  | .pool call => call.Proper
  | _ => True

namespace Session

open Database (Typed)

variable {named : Prop} {pool : Pool} {c : Catalog}

theorem typed_poolStep (h : Typed named c pool.db) {call : PoolCall} (hcall : call.Proper) :
    Typed named c (pool.step call).db := by
  cases call with
  | cache call => exact Database.typed_call h hcall
  | keep page =>
    have hget := Database.typed_getPage h page
    simp only [Pool.step]
    generalize (Database.getPage page).outcome pool.db = r at hget ⊢
    obtain ⟨e | b, db⟩ := r
    · exact hget
    · exact Database.typed_recount hget _ (· + 1)
  | release hd =>
    simp only [Pool.step]
    split
    · exact Database.typed_recount h hd (· - 1)
    · exact h
  | discard page =>
    have hcached : ∀ {q b}, (pool.db.cache.drop page).2.buffer? q = some b → pool.db.cache.buffer? q = some b := by
      intro q b hb
      rw [PageCache.buffer?_drop h.coherent] at hb
      split at hb
      · cases hb
      · exact hb
    exact ⟨h.coherent.drop page, h.catalog, fun hb => h.wellFormed (hcached hb), fun hb => h.agrees (hcached hb)⟩

/-- Cached pages keep the columns of their tables, as long as no table comes to be registered with others. -/
theorem typed_step (h : Typed named pool.db.catalog pool.db) {call : SessionCall} (hcall : call.Proper)
    (hkept : ∀ page b f, (step pool call).db.cache.buffer? page = some b →
      (step pool call).db.catalog.file page.table = .ok f → b.page.schema.Matches named f.schema) :
    Typed named (step pool call).db.catalog (step pool call).db := by
  rcases step_eq pool call with ⟨c, rfl, heq⟩ | ⟨catalog, disk, -, heq⟩
  · have hstep := typed_poolStep h hcall
    rw [heq, hstep.catalog]
    exact hstep
  · rw [heq] at hkept ⊢
    exact ⟨h.coherent, rfl, h.wellFormed, hkept _ _ _⟩

/-- Tables are registered under the ids of their files, or all forgotten. -/
theorem keyed_step (h : pool.db.catalog.Keyed) (htyped : Typed named pool.db.catalog pool.db)
    {call : SessionCall} (hcall : call.Proper) : (step pool call).db.catalog.Keyed := by
  cases call with
  | pool call =>
    show (pool.step call).db.catalog.Keyed
    rw [(typed_poolStep htyped hcall).catalog]
    exact h
  | register file name key => exact h.register file name key
  | clear => exact Catalog.keyed_empty
  | outside disk => exact h

end Session

end RelStore
