/-
Who changed the pages that are still to be written.

* `Ledger` — a cache with an account of the pages that every transaction changed since they were last written for it;
* `Database.Settles` — what all operations but the marking of a page have in common: no page becomes dirty by them, and
  what the cache remembers of transactions stays;
* `Database.clean_of_writePages`, `Database.exists_dirty_of_writePages_error` — pages are clean after they were written;
  when writing fails one of them is not;
* `Ledger.moves_step` — all that a call can do to cache and account;
* `Ledger.Accounted` — every dirty page is remembered under a transaction that changed it, and a transaction whose pages
  are written successfully has no dirty page left;
* `Ledger.accounted_iff` — this is so all along a run exactly if no transaction was refused when its pages were to be
  written: the cache forgets the pages before it writes them.

Design notes.  The account is kept beside the cache, from the answers of the calls alone, so that what the cache
remembers is compared with what was done and not with itself.
-/
import Mathlib.Data.List.Infix
import RelStore.Proofs.Store.Flushing
import RelStore.Proofs.Store.Sessions

namespace RelStore

open Fallible (follow)

/-! ### What the cache remembers -/

namespace PageCache

variable {c : PageCache}

theorem changed_modifyFrame (c : PageCache) (frame : Nat) (change : Frame → Frame) :
    (c.modifyFrame frame change).changed = c.changed := by
  rw [modifyFrame]
  split <;> rfl

theorem changed_modify (c : PageCache) (page : PageId) (change : Buffer → Buffer) :
    (c.modify page change).changed = c.changed := by
  rw [modify]
  split
  · exact changed_modifyFrame ..
  · rfl

theorem changed_touch {c' : PageCache} {page : PageId} {b : Buffer} (h : c.touch page = some (b, c')) :
    c'.changed = c.changed := by
  rw [touch] at h
  split at h
  · split at h
    · cases h
      exact changed_modifyFrame ..
    · cases h
  · cases h

theorem changed_drop (c : PageCache) (page : PageId) : (c.drop page).2.changed = c.changed := by
  rw [drop]
  split
  · rfl
  · split
    · rfl
    · split <;> rfl

theorem mem_changedBy_markChanged {txn txn' : TxnId} {page page' : PageId} :
    page' ∈ (c.markChanged txn page).changedBy txn' ↔ page' ∈ c.changedBy txn' ∨ txn' = txn ∧ page' = page := by
  rw [changedBy, markChanged]
  simp only [Assoc.get?_insert]
  by_cases heq : txn = txn'
  · subst heq
    rw [if_pos rfl, Option.getD_some]
    split
    · next hmem =>
      rw [List.contains_iff_mem] at hmem
      constructor
      · exact .inl
      · rintro (h | ⟨-, rfl⟩)
        · exact h
        · exact hmem
    · simp
  · rw [if_neg heq, changedBy]
    simp [Ne.symm heq]

theorem changedBy_erase (c : PageCache) (txn txn' : TxnId) :
    ({ c with changed := c.changed.erase txn } : PageCache).changedBy txn'
      = if txn = txn' then [] else c.changedBy txn' := by
  rw [changedBy, Assoc.get?_erase]
  split <;> rfl

end PageCache

namespace Database

variable {db db' : Database} {page : PageId} {frame : Nat}

/-- Whether the page is cached and not yet written since it was changed. -/
def Dirty (db : Database) (page : PageId) : Prop :=
  ∃ b, db.cache.buffer? page = some b ∧ b.dirty = true

/-- No page becomes dirty, and what the cache remembers of transactions stays. -/
structure Settles (db db' : Database) : Prop where
  changed : db'.cache.changed = db.cache.changed
  dirty : ∀ {page : PageId}, db'.Dirty page → db.Dirty page

theorem Settles.refl (db : Database) : db.Settles db :=
  ⟨rfl, id⟩

theorem Settles.trans {db₁ db₂ db₃ : Database} (h : db₁.Settles db₂) (h' : db₂.Settles db₃) : db₁.Settles db₃ :=
  ⟨h'.changed.trans h.changed, fun hd => h.dirty (h'.dirty hd)⟩

theorem Settles.follow {ε α β : Type} {r : Except ε α × Database} {next : α → Database → Except ε β × Database}
    (h : db.Settles r.2) (hnext : ∀ x, r.1 = .ok x → r.2.Settles (next x r.2).2) :
    db.Settles (follow r next).2 := by
  obtain ⟨x | e, db'⟩ := r
  · exact h
  · exact h.trans (hnext _ rfl)

theorem Settles.of_buffer? (hchanged : db'.cache.changed = db.cache.changed)
    (hbuffer : ∀ page, db'.cache.buffer? page = db.cache.buffer? page) : db.Settles db' :=
  ⟨hchanged, fun ⟨b, hb, hdirty⟩ => ⟨b, (hbuffer _).symm.trans hb, hdirty⟩⟩

/-! ### Pages come and go -/

theorem settles_writeBack (h : db.cache.Coherent) (frame : Nat) :
    db.Settles ((writeBack frame).outcome db).2 := by
  rcases eq_of_writeBack frame db with ⟨r, heq⟩ | ⟨d, heq⟩
  · rw [heq]
    exact Settles.refl db
  · rw [heq]
    refine ⟨PageCache.changed_modifyFrame .., ?_⟩
    rintro page ⟨b', hb', hdirty⟩
    replace hb' : (db.cache.modifyAt frame cleaned).buffer? page = some b' := hb'
    cases hat : db.cache.bufferAt? frame with
    | none =>
      rw [PageCache.buffer?, show (db.cache.modifyAt frame cleaned).pageTable = db.cache.pageTable from
        PageCache.pageTable_modifyFrame ..] at hb'
      split at hb'
      · next i hi =>
        rw [PageCache.bufferAt?_modifyAt] at hb'
        split at hb'
        · next heq =>
          subst heq
          rw [hat] at hb'
          cases hb'
        · exact ⟨b', by rw [PageCache.buffer?, hi]; exact hb', hdirty⟩
      · cases hb'
    | some b =>
      rw [PageCache.buffer?_modifyAt h hat] at hb'
      split at hb'
      · cases hb'
        cases hdirty
      · exact ⟨b', hb', hdirty⟩

theorem settles_findFrame (db : Database) : db.Settles (findFrame.outcome db).2 := by
  rw [outcome_findFrame]
  exact Settles.of_buffer? rfl (PageCache.buffer?_sweep db.cache)

/-- A page that comes in is clean. -/
theorem settles_put (h : db.cache.Coherent) (hframe : frame < db.cache.clock.frames.length) (p : Page) :
    let loaded : Buffer := { serial := db.nextSerial, page := p }
    db.Settles { db with cache := db.cache.put frame loaded, nextSerial := db.nextSerial + 1 } := by
  intro loaded
  refine ⟨rfl, ?_⟩
  rintro page ⟨b, hb, hdirty⟩
  replace hb : (db.cache.put frame loaded).buffer? page = some b := hb
  rw [PageCache.buffer?_put h hframe] at hb
  split at hb
  · cases hb
    cases hdirty
  · split at hb
    · cases hb
    · exact ⟨b, hb, hdirty⟩

theorem settles_getPage (h : db.cache.Coherent) (page : PageId) :
    db.Settles ((getPage page).outcome db).2 := by
  rw [outcome_getPage]
  cases ht : db.cache.touch page with
  | some found =>
    obtain ⟨b, cache⟩ := found
    exact Settles.of_buffer? (PageCache.changed_touch ht) (h.touch ht).2.2.1
  | none =>
    dsimp only
    rw [outcome_loadPage]
    refine Settles.follow (Settles.refl db) fun f _ => ?_
    dsimp only
    split
    · exact Settles.refl db
    · exact Settles.refl db
    · have hfound := spares_findFrame h
      refine Settles.follow (settles_findFrame db) fun frame hframe => ?_
      have hwritten := spares_writeBack hfound.coherent frame
      refine Settles.follow (settles_writeBack hfound.coherent frame) fun _ _ => ?_
      exact settles_put hwritten.coherent (by rw [hwritten.frames]; exact (free_of_findFrame hframe).1) _

/-! ### Changes of tables -/

theorem settles_findRoom (h : db.cache.Coherent) (table : TableId) (first count : Nat) :
    db.Settles ((findRoom table first count).outcome db).2 := by
  induction count generalizing db first with
  | zero => exact Settles.refl db
  | succ count ih =>
    rw [outcome_findRoom_succ]
    have hget := spares_getPage h ⟨table, first⟩
    refine Settles.follow (settles_getPage h _) fun b _ => ?_
    split
    · exact Settles.refl _
    · exact ih hget.coherent (first + 1)

theorem settles_roomFor (h : db.cache.Coherent) (f : HeapFile) :
    db.Settles ((roomFor f).outcome db).2 := by
  rw [outcome_roomFor]
  refine Settles.follow (settles_findRoom h ..) fun found _ => ?_
  cases found with
  | some page => exact Settles.refl _
  | none =>
    refine Settles.follow (Settles.refl _) fun p _ => ?_
    refine Settles.follow (Settles.refl _) fun d _ => ?_
    exact Settles.of_buffer? rfl fun _ => rfl

/-- A change of a buffer that leaves its mark alone. -/
theorem settles_modify (h : db.cache.Coherent) (page : PageId) {change : Buffer → Buffer}
    (hchange : ∀ b, (change b).dirty = b.dirty) :
    db.Settles { db with cache := db.cache.modify page change } := by
  refine ⟨PageCache.changed_modify .., ?_⟩
  rintro q ⟨b', hb', hdirty⟩
  replace hb' : (db.cache.modify page change).buffer? q = some b' := hb'
  rw [PageCache.buffer?_modify h] at hb'
  split at hb'
  · obtain ⟨b, hb, rfl⟩ := Option.map_eq_some_iff.mp hb'
    exact ⟨b, hb, (hchange b).symm.trans hdirty⟩
  · exact ⟨b', hb', hdirty⟩

/-- A row comes into a table, and the page is told; nobody is remembered for it. -/
def placeRow (table : TableId) (row : Row) : DbM StorageError PageId := do
  let f ← tableFile table
  fileInsert f row

/-- A row leaves its table, and the page is told; nobody is remembered for it. -/
def takeRow (row : Row) : DbM StorageError PageId := do
  match row.record with
  | none => throw .missingRecordId
  | some record =>
    let f ← tableFile record.page.table
    fileDelete f row

/-- No page becomes dirty, and held buffers stay. -/
structure Quiet (db db' : Database) : Prop where
  spares : db.Spares db'
  settles : db.Settles db'

theorem Quiet.refl (h : db.cache.Coherent) : db.Quiet db :=
  ⟨Spares.refl h, Settles.refl db⟩

theorem Quiet.follow {ε α β : Type} {r : Except ε α × Database} {next : α → Database → Except ε β × Database}
    (h : db.Quiet r.2) (hnext : ∀ x, r.1 = .ok x → r.2.Quiet (next x r.2).2) : db.Quiet (follow r next).2 :=
  ⟨h.spares.follow fun x hx => (hnext x hx).spares, h.settles.follow fun x hx => (hnext x hx).settles⟩

theorem quiet_getPage (h : db.cache.Coherent) (page : PageId) : db.Quiet ((getPage page).outcome db).2 :=
  ⟨spares_getPage h page, settles_getPage h page⟩

/-- Another page with the same id in a cached buffer. -/
theorem quiet_setPage (h : db.cache.Coherent) {b : Buffer} (hb : db.cache.buffer? page = some b) {p : Page}
    (hid : p.id = b.page.id) :
    db.Quiet { db with cache := db.cache.modify page fun b => { b with page := p } } := by
  refine ⟨Spares.of_tags (h.modify fun b' hb' => ?_) (PageCache.length_modify ..) rfl fun q => ?_,
    settles_modify h page fun _ => rfl⟩
  · rw [hb] at hb'
    cases hb'
    exact hid
  · show ((db.cache.modify page _).buffer? q).map tag = _
    rw [PageCache.buffer?_modify h]
    split
    · rw [Option.map_map]
      rfl
    · rfl

theorem quiet_placeRow (h : db.cache.Coherent) (table : TableId) (row : Row) :
    db.Quiet ((placeRow table row).outcome db).2 := by
  simp only [placeRow, tableFile, fileInsert, setPage, modifyCache, Fallible.outcome_bind, Fallible.outcome_get,
    Fallible.follow_ok, Fallible.outcome_ofExcept, Fallible.outcome_ite, Fallible.outcome_modify,
    Fallible.outcome_pure, Fallible.outcome_throw]
  refine Quiet.follow (Quiet.refl h) fun f _ => ?_
  dsimp only
  split
  · have hroom : db.Quiet ((roomFor f).outcome db).2 := ⟨spares_roomFor h f, settles_roomFor h f⟩
    refine Quiet.follow hroom fun page _ => ?_
    have hget := quiet_getPage hroom.spares.coherent page
    refine Quiet.follow hget fun b hb => ?_
    refine Quiet.follow (Quiet.refl hget.spares.coherent) fun result hresult => ?_
    exact quiet_setPage hget.spares.coherent (buffer?_of_getPage hroom.spares.coherent hb)
      (Page.id_of_insert hresult)
  · exact Quiet.refl h

theorem quiet_takeRow (h : db.cache.Coherent) (row : Row) : db.Quiet ((takeRow row).outcome db).2 := by
  unfold takeRow
  split
  · exact Quiet.refl h
  · next record hrecord =>
    simp only [fileDelete, hrecord, tableFile, setPage, modifyCache, Fallible.outcome_bind, Fallible.outcome_get,
      Fallible.follow_ok, Fallible.outcome_ofExcept, Fallible.outcome_ite, Fallible.outcome_modify,
      Fallible.outcome_pure, Fallible.outcome_throw]
    refine Quiet.follow (Quiet.refl h) fun f _ => ?_
    dsimp only
    split
    · exact Quiet.refl h
    · have hget := quiet_getPage h record.page
      refine Quiet.follow hget fun b hb => ?_
      refine Quiet.follow (Quiet.refl hget.spares.coherent) fun p hp => ?_
      exact quiet_setPage hget.spares.coherent (buffer?_of_getPage h hb) (Page.id_of_delete hp)

/-- Storing a row is placing it and remembering who did it. -/
theorem outcome_insertRow_placeRow (txn : TxnId) (table : TableId) (row : Row) (db : Database) :
    (insertRow txn table row).outcome db = follow ((placeRow table row).outcome db) fun page db =>
      (.ok (), { db with cache := db.cache.markChanged txn page }) := by
  simp only [insertRow, placeRow, modifyCache, Fallible.outcome_bind, Fallible.outcome_modify,
    Fallible.follow_follow]

theorem outcome_deleteRow_takeRow (txn : TxnId) (row : Row) (db : Database) :
    (deleteRow txn row).outcome db = follow ((takeRow row).outcome db) fun page db =>
      (.ok (), { db with cache := db.cache.markChanged txn page }) := by
  unfold deleteRow takeRow
  cases row.record with
  | none => rfl
  | some record => simp only [modifyCache, Fallible.outcome_bind, Fallible.outcome_modify, Fallible.follow_follow]

/-! ### Writing pages -/

theorem settles_writePages (h : db.cache.Coherent) (pages : List PageId) :
    db.Settles ((writePages pages).outcome db).2 := by
  induction pages generalizing db with
  | nil => exact Settles.refl db
  | cons page pages ih =>
    rw [outcome_writePages_cons]
    split
    · next frame _ =>
      exact Settles.follow (settles_writeBack h frame) fun _ _ => ih (spares_writeBack h frame).coherent
    · exact ih h

/-- A buffer that was written is clean. -/
theorem clean_of_writeBack (hok : ((writeBack frame).outcome db).1 = .ok ()) {b : Buffer}
    (hb : ((writeBack frame).outcome db).2.cache.bufferAt? frame = some b) : b.dirty = false := by
  rw [outcome_writeBack] at hok hb
  cases hat : db.cache.bufferAt? frame with
  | none =>
    simp only [hat] at hb
    cases hb
  | some old =>
    simp only [hat] at hok hb
    by_cases hdirty : old.dirty = true
    · rw [if_pos hdirty] at hok hb
      obtain ⟨f, -, heq⟩ := Fallible.exists_of_follow_ok hok
      rw [heq] at hok hb
      obtain ⟨d, -, heq'⟩ := Fallible.exists_of_follow_ok hok
      rw [heq'] at hb
      replace hb : (db.cache.modifyAt frame cleaned).bufferAt? frame = some b := hb
      rw [PageCache.bufferAt?_modifyAt, if_pos rfl, hat] at hb
      cases hb
      rfl
    · rw [if_neg hdirty] at hb
      rw [hat] at hb
      cases hb
      exact Bool.eq_false_iff.mpr hdirty

/-- Pages that were written are clean. -/
theorem clean_of_writePages (h : db.cache.Coherent) (pages : List PageId)
    (hok : ((writePages pages).outcome db).1 = .ok ()) :
    ∀ page ∈ pages, ¬ ((writePages pages).outcome db).2.Dirty page := by
  induction pages generalizing db with
  | nil => exact fun _ hmem => absurd hmem List.not_mem_nil
  | cons page pages ih =>
    rw [outcome_writePages_cons] at hok ⊢
    cases hframe : db.cache.pageTable.get? page with
    | none =>
      simp only [hframe] at hok ⊢
      intro q hq hdirty
      rcases List.mem_cons.mp hq with rfl | hq
      -- a page that is not in the table has no buffer, before and after
      · obtain ⟨b, hb, -⟩ := (settles_writePages h pages).dirty hdirty
        rw [PageCache.buffer?, hframe] at hb
        cases hb
      · exact ih h hok q hq hdirty
    | some frame =>
      simp only [hframe] at hok ⊢
      have hco := (spares_writeBack h frame).coherent
      obtain ⟨_, hwrite, heq⟩ := Fallible.exists_of_follow_ok hok
      rw [heq] at hok ⊢
      intro q hq hdirty
      rcases List.mem_cons.mp hq with rfl | hq
      -- written first, and nothing becomes dirty afterwards
      · obtain ⟨b, hb, hb'⟩ := (settles_writePages hco pages).dirty hdirty
        rw [PageCache.buffer?, pageTable_of_writeBack, hframe] at hb
        rw [clean_of_writeBack hwrite hb] at hb'
        cases hb'
      · exact ih hco hok q hq hdirty

/-- When writing fails, one of the pages is still dirty. -/
theorem exists_dirty_of_writePages_error (h : db.cache.Coherent) {pages : List PageId} {e : StorageError}
    (herror : ((writePages pages).outcome db).1 = .error e) :
    ∃ page ∈ pages, ((writePages pages).outcome db).2.Dirty page := by
  induction pages generalizing db with
  | nil => cases herror
  | cons page pages ih =>
    rw [outcome_writePages_cons] at herror ⊢
    cases hframe : db.cache.pageTable.get? page with
    | none =>
      simp only [hframe] at herror ⊢
      obtain ⟨q, hq, hdirty⟩ := ih h herror
      exact ⟨q, List.mem_cons_of_mem _ hq, hdirty⟩
    | some frame =>
      simp only [hframe] at herror ⊢
      rcases writeBack_cases db frame with ⟨-, hwrite⟩ | ⟨b, e', hb, hdirty, -, hwrite⟩
      · have hco := (spares_writeBack h frame).coherent
        generalize (writeBack frame).outcome db = r at herror hwrite hco ⊢
        obtain ⟨_, db₁⟩ := r
        cases hwrite
        obtain ⟨q, hq, hdirty⟩ := ih hco herror
        exact ⟨q, List.mem_cons_of_mem _ hq, hdirty⟩
      · rw [hwrite]
        refine ⟨page, List.mem_cons_self, ?_⟩
        show db.Dirty page
        exact ⟨b, by rw [PageCache.buffer?, hframe]; exact hb, hdirty⟩

theorem settles_discardPage (h : db.cache.Coherent) (page : PageId) :
    db.Settles ((discardPage page : DbM StorageError Bool).outcome db).2 := by
  refine ⟨PageCache.changed_drop .., ?_⟩
  rintro q ⟨b, hb, hdirty⟩
  replace hb : (db.cache.drop page).2.buffer? q = some b := hb
  rw [PageCache.buffer?_drop h] at hb
  split at hb
  · cases hb
  · exact ⟨b, hb, hdirty⟩

end Database

/-! ### The account -/

/-- A cache with its callers, and the pages that every transaction changed since they were last written for it. -/
structure Ledger where
  pool : Pool
  owed : TxnId → List PageId := fun _ => []

namespace Ledger

open Database (Settles)

variable {s : Ledger} {n : Nat}

/-- One more page that a transaction changed. -/
def note (owed : TxnId → List PageId) (txn : TxnId) (page : PageId) : TxnId → List PageId := fun txn' =>
  if txn' = txn then page :: owed txn' else owed txn'

/-- The page that a transaction changed, if it did not fail. -/
def noteAnswer (owed : TxnId → List PageId) (txn : TxnId) : Except StorageError PageId → TxnId → List PageId
  | .ok page => note owed txn page
  | .error _ => owed

/-- Nothing more to write for a transaction. -/
def settle (owed : TxnId → List PageId) (txn : TxnId) : TxnId → List PageId := fun txn' =>
  if txn' = txn then [] else owed txn'

/-- The account after a call, from what the call answers. -/
def account (s : Ledger) : SessionCall → TxnId → List PageId
  | .pool (.cache (.insert txn table row)) =>
    noteAnswer s.owed txn ((Database.placeRow table row).outcome s.pool.db).1
  | .pool (.cache (.delete txn row)) => noteAnswer s.owed txn ((Database.takeRow row).outcome s.pool.db).1
  | .pool (.cache .flush) =>
    match (Database.flush.outcome s.pool.db).1 with
    | .ok _ => fun _ => []
    | .error _ => s.owed
  | .pool (.cache (.flushPages txn)) =>
    match ((Database.flushPages txn).outcome s.pool.db).1 with
    | .ok _ => settle s.owed txn
    | .error _ => s.owed
  | _ => s.owed

/-- What a call does to cache and account. -/
def step (s : Ledger) (call : SessionCall) : Ledger :=
  ⟨Session.step s.pool call, s.account call⟩

/-- What some calls do, one after the other. -/
def run (calls : List SessionCall) (s : Ledger) : Ledger :=
  calls.foldl step s

/-- An empty cache of `n` frames, and nothing to write. -/
def opening (n : Nat) (start : Database) : Ledger :=
  { pool := ⟨{ start with cache := PageCache.ofSize n }, []⟩ }

/-- A request to write the pages of a transaction. -/
abbrev writeFor (txn : TxnId) : SessionCall :=
  .pool (.cache (.flushPages txn))

/-- All that a call can do to cache and account. -/
inductive Moves (s : Ledger) : SessionCall → Ledger → Prop
  /-- Nothing is changed and nobody's pages are written. -/
  | quiet {call : SessionCall} {s' : Ledger} (hcall : ∀ txn, call ≠ writeFor txn)
      (hsettles : s.pool.db.Settles s'.pool.db) (howed : s'.owed = s.owed) : Moves s call s'
  /-- A transaction changed a page. -/
  | changed {call : SessionCall} {s' : Ledger} (hcall : ∀ txn, call ≠ writeFor txn) {db : Database}
      (hco : db.cache.Coherent) (hsettles : s.pool.db.Settles db) {txn : TxnId} {page : PageId}
      (hcache : s'.pool.db.cache = db.cache.markChanged txn page) (howed : s'.owed = note s.owed txn page) :
      Moves s call s'
  /-- All pages were written. -/
  | flushed {call : SessionCall} {s' : Ledger} (hcall : ∀ txn, call ≠ writeFor txn)
      (hchanged : s'.pool.db.cache.changed = {}) (hclean : ∀ page, ¬ s'.pool.db.Dirty page)
      (howed : s'.owed = fun _ => []) : Moves s call s'
  /-- The pages of a transaction were written. -/
  | written {s' : Ledger} {txn : TxnId} (hok : ((Database.flushPages txn).outcome s.pool.db).1 = .ok ())
      (hchanged : s'.pool.db.cache.changed = s.pool.db.cache.changed.erase txn)
      (hdirty : ∀ page, s'.pool.db.Dirty page → s.pool.db.Dirty page ∧ page ∉ s.pool.db.cache.changedBy txn)
      (howed : s'.owed = settle s.owed txn) : Moves s (writeFor txn) s'
  /-- One page of a transaction could not be written. -/
  | refused {s' : Ledger} {txn : TxnId} {e : StorageError}
      (herror : ((Database.flushPages txn).outcome s.pool.db).1 = .error e)
      (hchanged : s'.pool.db.cache.changed = s.pool.db.cache.changed.erase txn) {page : PageId}
      (hmem : page ∈ s.pool.db.cache.changedBy txn) (hdirty : s'.pool.db.Dirty page)
      (howed : s'.owed = s.owed) : Moves s (writeFor txn) s'

/-- A call that changes a page and then marks it, if it does not fail. -/
theorem moves_change {call : SessionCall} (hcall : ∀ txn, call ≠ writeFor txn) {txn : TxnId}
    {op : DbM StorageError PageId} (hquiet : s.pool.db.Quiet (op.outcome s.pool.db).2)
    (hdb : (s.step call).pool.db = (follow (op.outcome s.pool.db) fun page db =>
      ((.ok () : Except StorageError Unit), { db with cache := db.cache.markChanged txn page })).2)
    (howed : (s.step call).owed = noteAnswer s.owed txn (op.outcome s.pool.db).1) : Moves s call (s.step call) := by
  generalize op.outcome s.pool.db = r at hquiet hdb howed
  obtain ⟨e | page, db⟩ := r
  · exact .quiet hcall (by rw [hdb]; exact hquiet.settles) howed
  · exact .changed hcall hquiet.spares.coherent hquiet.settles (by rw [hdb]; rfl) howed

theorem moves_insert (h : s.pool.db.cache.Coherent) (txn : TxnId) (table : TableId) (row : Row) :
    Moves s (.pool (.cache (.insert txn table row))) (s.step (.pool (.cache (.insert txn table row)))) := by
  refine moves_change (fun _ => nofun) (Database.quiet_placeRow h table row) ?_ rfl
  rw [← Database.outcome_insertRow_placeRow]
  exact Fallible.snd_outcome_map ..

theorem moves_delete (h : s.pool.db.cache.Coherent) (txn : TxnId) (row : Row) :
    Moves s (.pool (.cache (.delete txn row))) (s.step (.pool (.cache (.delete txn row)))) := by
  refine moves_change (fun _ => nofun) (Database.quiet_takeRow h row) ?_ rfl
  rw [← Database.outcome_deleteRow_takeRow]
  exact Fallible.snd_outcome_map ..

theorem moves_flush (h : s.pool.db.cache.Coherent) :
    Moves s (.pool (.cache .flush)) (s.step (.pool (.cache .flush))) := by
  have hdb : (s.step (.pool (.cache .flush))).pool.db = (Database.flush.outcome s.pool.db).2 :=
    Fallible.snd_outcome_map ..
  have howed : (s.step (.pool (.cache .flush))).owed = match (Database.flush.outcome s.pool.db).1 with
      | .ok _ => fun _ => []
      | .error _ => s.owed := rfl
  rw [Database.outcome_flush] at hdb howed
  have hsettles := Database.settles_writePages h s.pool.db.cache.pageTable.keys
  have hclean := Database.clean_of_writePages h s.pool.db.cache.pageTable.keys
  generalize (Database.writePages s.pool.db.cache.pageTable.keys).outcome s.pool.db = r at hsettles hclean hdb howed
  obtain ⟨e | _, db⟩ := r
  · exact .quiet (fun _ => nofun) (by rw [hdb]; exact hsettles) howed
  · refine .flushed (fun _ => nofun) (by rw [hdb]; rfl) (fun page hdirty => ?_) howed
    rw [hdb] at hdirty
    -- the page of every buffer was in the table, so it was written
    obtain ⟨b, hb, hbdirty⟩ := hdirty
    obtain ⟨b₀, hb₀, -⟩ := hsettles.dirty ⟨b, hb, hbdirty⟩
    refine hclean rfl page ?_ ⟨b, hb, hbdirty⟩
    rw [Assoc.mem_keys_iff]
    obtain ⟨frame, hat, rfl⟩ := (PageCache.buffer?_eq_some_iff h).mp hb₀
    exact ⟨frame, h.frameOf hat⟩

theorem moves_writeFor (h : s.pool.db.cache.Coherent) (txn : TxnId) :
    Moves s (writeFor txn) (s.step (writeFor txn)) := by
  have hdb : (s.step (writeFor txn)).pool.db = ((Database.flushPages txn).outcome s.pool.db).2 :=
    Fallible.snd_outcome_map ..
  have howed : (s.step (writeFor txn)).owed = match ((Database.flushPages txn).outcome s.pool.db).1 with
      | .ok _ => settle s.owed txn
      | .error _ => s.owed := rfl
  have hforget := (Database.spares_forget h (s.pool.db.cache.changed.erase txn)).coherent
  have hsettles := Database.settles_writePages hforget (s.pool.db.cache.changedBy txn)
  have hclean := Database.clean_of_writePages hforget (s.pool.db.cache.changedBy txn)
  have hfailed := @Database.exists_dirty_of_writePages_error _ hforget (s.pool.db.cache.changedBy txn)
  rw [← Database.outcome_flushPages] at hsettles hclean hfailed
  cases hr : ((Database.flushPages txn).outcome s.pool.db).1 with
  | ok _ =>
    rw [hr] at howed
    refine .written hr (by rw [hdb]; exact hsettles.changed) (fun page hdirty => ?_) howed
    rw [hdb] at hdirty
    exact ⟨hsettles.dirty hdirty, fun hmem => hclean hr page hmem hdirty⟩
  | error e =>
    rw [hr] at howed
    obtain ⟨page, hmem, hdirty⟩ := hfailed hr
    exact .refused hr (by rw [hdb]; exact hsettles.changed) hmem (by rw [hdb]; exact hdirty) howed

/-- Who keeps a buffer or lets it go changes nothing. -/
theorem settles_keep (h : s.pool.Tended n) (page : PageId) :
    s.pool.db.Settles (s.pool.step (.keep page)).db := by
  have hsettles := Database.settles_getPage h.coherent page
  have hspares := Database.spares_getPage h.coherent page
  have hcached := @Database.buffer?_of_getPage s.pool.db page
  simp only [Pool.step]
  generalize (Database.getPage page).outcome s.pool.db = r at hsettles hspares hcached ⊢
  obtain ⟨e | b, db⟩ := r
  · exact hsettles
  · refine hsettles.trans ?_
    have hb : db.cache.buffer? (⟨page, b.serial⟩ : Handle).page = some b := hcached h.coherent rfl
    show db.Settles (db.hold ⟨page, b.serial⟩)
    rw [Database.hold, Pool.modifyBuffer_of_buffer? hb rfl]
    exact Database.settles_modify hspares.coherent page fun _ => rfl

theorem settles_release (h : s.pool.Tended n) (hd : Handle) :
    s.pool.db.Settles (s.pool.step (.release hd)).db := by
  simp only [Pool.step]
  split
  · next hmem =>
    obtain ⟨b, hb, hserial⟩ := h.kept hmem
    rw [Database.release, Pool.modifyBuffer_of_buffer? hb hserial]
    exact Database.settles_modify h.coherent hd.page fun _ => rfl
  · exact Settles.refl _

theorem moves_step (h : s.pool.Tended n) (call : SessionCall) : Moves s call (s.step call) := by
  have hco := h.coherent
  have hself : ∀ {db : Database}, db.cache = s.pool.db.cache → s.pool.db.Settles db := fun heq =>
    Settles.of_buffer? (by rw [heq]) fun _ => by rw [heq]
  cases call with
  | register file name key => exact .quiet (fun _ => nofun) (hself rfl) rfl
  | clear => exact .quiet (fun _ => nofun) (hself rfl) rfl
  | outside disk => exact .quiet (fun _ => nofun) (hself rfl) rfl
  | pool call =>
    cases call with
    | keep page => exact .quiet (fun _ => nofun) (settles_keep h page) rfl
    | release hd => exact .quiet (fun _ => nofun) (settles_release h hd) rfl
    | discard page => exact .quiet (fun _ => nofun) (Database.settles_discardPage hco page) rfl
    | cache call =>
      cases call with
      | getPage page =>
        refine .quiet (fun _ => nofun) ?_ rfl
        have hdb : (s.step (.pool (.cache (.getPage page)))).pool.db
            = ((Database.getPage page).outcome s.pool.db).2 := Fallible.snd_outcome_map ..
        rw [hdb]
        exact Database.settles_getPage hco page
      | insert txn table row => exact moves_insert hco txn table row
      | delete txn row => exact moves_delete hco txn row
      | flush => exact moves_flush hco
      | flushPages txn => exact moves_writeFor hco txn

/-! ### What is remembered -/

theorem mem_note {owed : TxnId → List PageId} {txn txn' : TxnId} {page page' : PageId} :
    page' ∈ note owed txn page txn' ↔ page' ∈ owed txn' ∨ txn' = txn ∧ page' = page := by
  rw [note]
  split
  · next heq => simp [heq, or_comm]
  · next hne => simp [hne]

theorem mem_settle {owed : TxnId → List PageId} {txn txn' : TxnId} {page : PageId} :
    page ∈ settle owed txn txn' ↔ txn' ≠ txn ∧ page ∈ owed txn' := by
  rw [settle]
  split
  · next heq => simp [heq]
  · next hne => simp [hne]

/-- Whom the cache remembers for a page did change it. -/
structure Kept (n : Nat) (s : Ledger) : Prop where
  tended : s.pool.Tended n
  known : ∀ {txn : TxnId} {page : PageId}, page ∈ s.pool.db.cache.changedBy txn → page ∈ s.owed txn

theorem mem_changedBy_of_erase {db db' : Database} {txn txn' : TxnId} {page : PageId}
    (h : db'.cache.changed = db.cache.changed.erase txn) :
    page ∈ db'.cache.changedBy txn' ↔ txn' ≠ txn ∧ page ∈ db.cache.changedBy txn' := by
  have hsame : db'.cache.changedBy txn'
      = ({ db.cache with changed := db.cache.changed.erase txn } : PageCache).changedBy txn' := by
    rw [PageCache.changedBy, PageCache.changedBy, h]
  rw [hsame, PageCache.changedBy_erase]
  split
  · next heq => simp [heq]
  · next hne => simp [Ne.symm hne]

theorem changedBy_congr {c c' : PageCache} (h : c'.changed = c.changed) (txn : TxnId) :
    c'.changedBy txn = c.changedBy txn := by
  rw [PageCache.changedBy, PageCache.changedBy, h]

/-- Every call keeps it so, also one that fails. -/
theorem kept_step (h : s.Kept n) (call : SessionCall) : (s.step call).Kept n := by
  refine ⟨Session.tended_step h.tended call, ?_⟩
  intro txn page hmem
  cases moves_step h.tended call with
  | quiet _ hsettles howed =>
    rw [changedBy_congr hsettles.changed] at hmem
    rw [howed]
    exact h.known hmem
  | changed _ _ hsettles hcache howed =>
    rw [hcache, PageCache.mem_changedBy_markChanged, changedBy_congr hsettles.changed] at hmem
    rw [howed, mem_note]
    exact hmem.imp_left h.known
  | flushed _ hchanged _ _ =>
    rw [PageCache.changedBy, hchanged] at hmem
    cases hmem
  | written _ hchanged _ howed =>
    rw [mem_changedBy_of_erase hchanged] at hmem
    rw [howed, mem_settle]
    exact hmem.imp_right h.known
  | refused _ hchanged _ _ howed =>
    rw [mem_changedBy_of_erase hchanged] at hmem
    rw [howed]
    exact h.known hmem.2

theorem kept_run (h : s.Kept n) (calls : List SessionCall) : (run calls s).Kept n := by
  induction calls generalizing s with
  | nil => exact h
  | cons call calls ih => exact ih (kept_step h call)

theorem kept_opening (n : Nat) (start : Database) : (opening n start).Kept n := by
  refine ⟨Pool.tended_ofSize n start, fun {txn page} hmem => ?_⟩
  cases hmem

/-- Who changed a dirty page is known, and the cache remembers everybody who changed a page. -/
structure Balanced (s : Ledger) : Prop where
  noted : ∀ {txn : TxnId} {page : PageId}, page ∈ s.owed txn → page ∈ s.pool.db.cache.changedBy txn
  owner : ∀ {page : PageId}, s.pool.db.Dirty page → ∃ txn, page ∈ s.owed txn

theorem balanced_opening (n : Nat) (start : Database) : (opening n start).Balanced := by
  refine ⟨fun {txn page} hmem => ?_, ?_⟩
  · cases hmem
  · rintro page ⟨b, hb, -⟩
    cases hb

/-- A page that is marked is dirty, and no other one that was not. -/
theorem dirty_of_markChanged {db db' : Database} {txn : TxnId} {page page' : PageId} (h : db.cache.Coherent)
    (hcache : db'.cache = db.cache.markChanged txn page) (hdirty : db'.Dirty page') :
    page' = page ∨ db.Dirty page' := by
  obtain ⟨b, hb, hmark⟩ := hdirty
  rw [hcache, PageCache.buffer?_markChanged h] at hb
  split at hb
  · next heq => exact .inl heq.symm
  · exact .inr ⟨b, hb, hmark⟩

/-- Every call keeps it so, unless a transaction is refused when its pages are to be written. -/
theorem balanced_step (hkept : s.Kept n) (h : s.Balanced) {call : SessionCall}
    (hok : ∀ txn, call = writeFor txn → ((Database.flushPages txn).outcome s.pool.db).1 = .ok ()) :
    (s.step call).Balanced := by
  cases moves_step hkept.tended call with
  | quiet _ hsettles howed =>
    refine ⟨fun {txn page} hmem => ?_, fun {page} hdirty => ?_⟩
    · rw [changedBy_congr hsettles.changed]
      exact h.noted (by rw [← howed]; exact hmem)
    · rw [howed]
      exact h.owner (hsettles.dirty hdirty)
  | @changed _ _ _ db hco hsettles txn page hcache howed =>
    refine ⟨fun {txn' page'} hmem => ?_, fun {page'} hdirty => ?_⟩
    · rw [howed, mem_note] at hmem
      rw [hcache, PageCache.mem_changedBy_markChanged, changedBy_congr hsettles.changed]
      exact hmem.imp_left h.noted
    · rcases dirty_of_markChanged hco hcache hdirty with rfl | hdirty
      · exact ⟨txn, by rw [howed, mem_note]; exact .inr ⟨rfl, rfl⟩⟩
      · obtain ⟨txn', hmem⟩ := h.owner (hsettles.dirty hdirty)
        exact ⟨txn', by rw [howed, mem_note]; exact .inl hmem⟩
  | flushed _ _ hclean howed =>
    refine ⟨fun {txn page} hmem => ?_, fun {page} hdirty => absurd hdirty (hclean page)⟩
    rw [howed] at hmem
    cases hmem
  | @written _ txn _ hchanged hdirty howed =>
    refine ⟨fun {txn' page} hmem => ?_, fun {page} hd => ?_⟩
    · rw [howed, mem_settle] at hmem
      rw [mem_changedBy_of_erase hchanged]
      exact hmem.imp_right h.noted
    -- what is still dirty was not changed by this transaction, so somebody else is known for it
    · obtain ⟨hwas, hnot⟩ := hdirty page hd
      obtain ⟨txn', hmem⟩ := h.owner hwas
      refine ⟨txn', ?_⟩
      rw [howed, mem_settle]
      refine ⟨?_, hmem⟩
      rintro rfl
      exact hnot (h.noted hmem)
  | @refused _ txn e herror _ _ _ _ _ =>
    rw [hok txn rfl] at herror
    cases herror

/-! ### When the account is right -/

/-- Every dirty page is remembered under a transaction that changed it; and when the pages of a transaction are
written without failing, no page is left dirty that it changed. -/
structure Accounted (s : Ledger) : Prop where
  remembered : ∀ page, s.pool.db.Dirty page → ∃ txn, page ∈ s.owed txn ∧ page ∈ s.pool.db.cache.changedBy txn
  written : ∀ txn, ((Database.flushPages txn).outcome s.pool.db).1 = .ok () → ∀ page ∈ s.owed txn,
    ¬ ((Database.flushPages txn).outcome s.pool.db).2.Dirty page

theorem Balanced.accounted (hkept : s.Kept n) (h : s.Balanced) : s.Accounted := by
  constructor
  · intro page hdirty
    obtain ⟨txn, hmem⟩ := h.owner hdirty
    exact ⟨txn, hmem, h.noted hmem⟩
  · intro txn hok page hmem
    have hforget := (Database.spares_forget hkept.tended.coherent (s.pool.db.cache.changed.erase txn)).coherent
    rw [Database.outcome_flushPages] at hok ⊢
    exact Database.clean_of_writePages hforget _ hok page (h.noted hmem)

/-- A transaction that is refused when its pages are to be written is forgotten with one of them still dirty. The next
time there is nothing to write for it, and that succeeds. -/
theorem not_accounted_of_refused (hkept : s.Kept n) {txn : TxnId} {e : StorageError}
    (herror : ((Database.flushPages txn).outcome s.pool.db).1 = .error e) : ¬ (s.step (writeFor txn)).Accounted := by
  intro haccounted
  cases moves_step hkept.tended (writeFor txn) with
  | quiet hcall _ _ => exact hcall txn rfl
  | changed hcall _ _ _ _ => exact hcall txn rfl
  | flushed hcall _ _ _ => exact hcall txn rfl
  | written hok _ _ _ =>
    rw [herror] at hok
    cases hok
  | @refused _ _ _ _ hchanged page hmem hdirty howed =>
    have hnothing : (s.step (writeFor txn)).pool.db.cache.changedBy txn = [] := by
      rw [List.eq_nil_iff_forall_not_mem]
      intro q hq
      exact ((mem_changedBy_of_erase hchanged).mp hq).1 rfl
    have hagain := haccounted.written txn
    rw [Database.outcome_flushPages, hnothing] at hagain
    refine hagain rfl page ?_ hdirty
    rw [howed]
    exact hkept.known hmem

theorem balanced_run (hkept : s.Kept n) (h : s.Balanced) {calls : List SessionCall}
    (hok : ∀ before txn, before ++ [writeFor txn] <+: calls →
      ((Database.flushPages txn).outcome (run before s).pool.db).1 = .ok ()) : (run calls s).Balanced := by
  induction calls generalizing s with
  | nil => exact h
  | cons call calls ih =>
    refine ih (kept_step hkept call) (balanced_step hkept h ?_) ?_
    · rintro txn rfl
      exact hok [] txn (List.prefix_append [writeFor txn] calls)
    · intro before txn hprefix
      exact hok (call :: before) txn (List.cons_prefix_cons.mpr ⟨rfl, hprefix⟩)

/-- All along a run the account is right exactly if no transaction was refused when its pages were to be written. -/
theorem accounted_iff (n : Nat) (start : Database) (calls : List SessionCall) :
    (∀ before, before <+: calls → (run before (opening n start)).Accounted)
      ↔ ∀ before txn, before ++ [writeFor txn] <+: calls →
        ((Database.flushPages txn).outcome (run before (opening n start)).pool.db).1 = .ok () := by
  constructor
  · intro haccounted before txn hprefix
    cases hr : ((Database.flushPages txn).outcome (run before (opening n start)).pool.db).1 with
    | ok _ => rfl
    | error e =>
      refine absurd (haccounted _ hprefix) ?_
      rw [run, List.foldl_append]
      exact not_accounted_of_refused (kept_run (kept_opening n start) before) hr
  · intro hok before hprefix
    refine Balanced.accounted (kept_run (kept_opening n start) before)
      (balanced_run (kept_opening n start) (balanced_opening n start) fun before' txn hprefix' => ?_)
    exact hok before' txn (hprefix'.trans hprefix)

/-! ### A transaction that is refused once -/

/-- A number is stored, its table is gone for a while, and meanwhile its page is to be written. -/
def refusedOnce : List SessionCall :=
  [.register (Session.numbersFile "t.dat") "table" none, Session.number "t.dat" 1,
    .register (Session.numbersFile "u.dat") "table" none, writeFor ⟨0⟩,
    .register (Session.numbersFile "t.dat") "table" none]

/-- So the account is not always right: asked again for the same transaction, the cache answers that all is written, and
the page is as dirty as it was. -/
theorem not_always_accounted :
    ¬ ∀ (n : Nat) (start : Database) (calls : List SessionCall), (run calls (opening n start)).Accounted := by
  intro haccounted
  let page : PageId := ⟨(Session.numbersFile "t.dat").id, 0⟩
  have hrun : ∃ s, run refusedOnce (opening 1 (Database.ofPoolSize 1)) = s
      ∧ ((Database.flushPages ⟨0⟩).outcome s.pool.db).1.isOk = true ∧ page ∈ s.owed ⟨0⟩
      ∧ (((Database.flushPages ⟨0⟩).outcome s.pool.db).2.cache.buffer? page).any (·.dirty) = true :=
    ⟨_, rfl, by decide +kernel⟩
  obtain ⟨s, hs, hok, hmem, hdirty⟩ := hrun
  have hwritten := (haccounted 1 (Database.ofPoolSize 1) refusedOnce).written ⟨0⟩
  rw [hs] at hwritten
  refine hwritten ?_ _ hmem ?_
  · generalize ((Database.flushPages ⟨0⟩).outcome s.pool.db).1 = r at hok
    cases r with
    | ok _ => rfl
    | error e => cases hok
  · rw [Option.any_eq_true] at hdirty
    exact hdirty

end Ledger

end RelStore
