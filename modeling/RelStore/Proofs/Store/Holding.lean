/-
Callers that keep buffers.

A caller may keep the buffer that it was given, and let it go later.

* `Pool`, `PoolCall` — a cache with the buffers that its callers hold, and what they can do with it;
* `Database.Spares` — what every operation of a cache leaves alone, whether it succeeds or fails: held buffers stay
  cached with their holders, and a buffer that comes in is new and held by nobody;
* `Database.spares_getPage`, `Database.spares_insertRow` and their like — one lemma for each operation;
* `Pool.Tended` — every buffer counts its callers, and what callers hold is cached;
* `Pool.tended_step`, `Pool.tended_run` — every call keeps it so, and so does every run;
* `Database.eq_of_getPage_error` — a page that is refused moves the hand of the clock and nothing else;
* `Pool.lawful_run` — what callers can rely on in every state that they can bring a cache to.

Design notes.  Nothing is assumed of the disk, the catalog or the rows: the buffers are looked after whatever the
files hold.  Two buffers are the same if they have the same serial number, so `Tended` also keeps count of these.
-/
import Mathlib.Data.List.Nodup
import Mathlib.Data.List.Perm.Subperm
import RelStore.Proofs.Store.Refinement

namespace RelStore

open Fallible (follow)

/-- A database, and the buffers of its cache that callers hold; one that is held twice is listed twice. -/
structure Pool where
  db : Database
  held : List Handle := []

/-- What a caller can do. -/
inductive PoolCall where
  /-- Calls the cache. A buffer in the answer is let go at once. -/
  | cache (call : CacheCall)
  /-- Asks for a page and keeps its buffer. -/
  | keep (page : PageId)
  /-- Lets a buffer go. -/
  | release (h : Handle)
  /-- Has a page dropped without writing it. -/
  | discard (page : PageId)

namespace Pool

/-- What a call does. Nobody can let go what is not held. -/
def step (pool : Pool) : PoolCall → Pool
  | .cache call => { pool with db := (call.run.outcome pool.db).2 }
  | .keep page =>
    match (Database.getPage page).outcome pool.db with
    | (.ok b, db) => ⟨db.hold ⟨page, b.serial⟩, ⟨page, b.serial⟩ :: pool.held⟩
    | (.error _, db) => { pool with db := db }
  | .release h => if h ∈ pool.held then ⟨pool.db.release h, pool.held.erase h⟩ else pool
  | .discard page =>
    { pool with db := ((Database.discardPage page : DbM StorageError Bool).outcome pool.db).2 }

/-- What some calls do, one after the other. -/
def run (calls : List PoolCall) (pool : Pool) : Pool :=
  calls.foldl step pool

end Pool

/-- A change of a page keeps its id. -/
theorem Page.id_of_insert {p : Page} {row : Row} {result : RecordId × Page} (h : p.insert row = .ok result) :
    result.2.id = p.id := by
  rw [Page.insert] at h
  split at h
  · split at h <;> cases h
    rfl
  · cases h

theorem Page.id_of_delete {p p' : Page} {row : Row} (h : p.delete row = .ok p') : p'.id = p.id := by
  rw [Page.delete] at h
  split at h
  · cases h
  · split at h
    · cases h
    · split at h <;> cases h
      rfl

namespace Database

variable {db db' : Database} {page : PageId} {b : Buffer} {frame : Nat}

/-! ### What an operation leaves alone -/

/-- What tells a buffer from others, and how many callers hold it. -/
def tag (b : Buffer) : Nat × Nat :=
  (b.serial, b.holders)

/-- Held buffers stay where they are, with their holders. A buffer that comes in is new, and nobody holds it. -/
structure Spares (db db' : Database) : Prop where
  coherent : db'.cache.Coherent
  frames : db'.cache.clock.frames.length = db.cache.clock.frames.length
  serial : db.nextSerial ≤ db'.nextSerial
  held : ∀ {page : PageId} {b : Buffer}, db.cache.buffer? page = some b → b.isHeld = true →
    ∃ b', db'.cache.buffer? page = some b' ∧ tag b' = tag b
  origin : ∀ {page : PageId} {b' : Buffer}, db'.cache.buffer? page = some b' →
    (∃ b, db.cache.buffer? page = some b ∧ tag b' = tag b)
      ∨ b'.holders = 0 ∧ db.nextSerial ≤ b'.serial ∧ b'.serial < db'.nextSerial

theorem Spares.of_tags (hcoherent : db'.cache.Coherent)
    (hframes : db'.cache.clock.frames.length = db.cache.clock.frames.length)
    (hserial : db'.nextSerial = db.nextSerial)
    (htags : ∀ page, (db'.cache.buffer? page).map tag = (db.cache.buffer? page).map tag) :
    db.Spares db' := by
  refine ⟨hcoherent, hframes, Nat.le_of_eq hserial.symm, ?_, ?_⟩
  · intro page b hb _
    have htag := htags page
    rw [hb] at htag
    exact Option.map_eq_some_iff.mp htag
  · intro page b' hb'
    have htag := htags page
    rw [hb'] at htag
    obtain ⟨b, hb, heq⟩ := Option.map_eq_some_iff.mp htag.symm
    exact .inl ⟨b, hb, heq.symm⟩

theorem Spares.of_buffer? (hcoherent : db'.cache.Coherent)
    (hframes : db'.cache.clock.frames.length = db.cache.clock.frames.length)
    (hserial : db'.nextSerial = db.nextSerial)
    (hbuffer : ∀ page, db'.cache.buffer? page = db.cache.buffer? page) : db.Spares db' :=
  Spares.of_tags hcoherent hframes hserial fun page => by rw [hbuffer]

theorem Spares.refl (h : db.cache.Coherent) : db.Spares db :=
  Spares.of_buffer? h rfl rfl fun _ => rfl

theorem Spares.trans {db₁ db₂ db₃ : Database} (h : db₁.Spares db₂) (h' : db₂.Spares db₃) :
    db₁.Spares db₃ := by
  refine ⟨h'.coherent, h'.frames.trans h.frames, Nat.le_trans h.serial h'.serial, ?_, ?_⟩
  · intro page b hb hheld
    obtain ⟨b₂, hb₂, htag⟩ := h.held hb hheld
    have hholders : b₂.holders = b.holders := congrArg Prod.snd htag
    have hheld₂ : b₂.isHeld = true := by
      rw [Buffer.isHeld, hholders]
      exact hheld
    obtain ⟨b₃, hb₃, htag₃⟩ := h'.held hb₂ hheld₂
    exact ⟨b₃, hb₃, htag₃.trans htag⟩
  · intro page b₃ hb₃
    rcases h'.origin hb₃ with ⟨b₂, hb₂, htag⟩ | ⟨hzero, hge, hlt⟩
    · have hserial : b₃.serial = b₂.serial := congrArg Prod.fst htag
      have hholders : b₃.holders = b₂.holders := congrArg Prod.snd htag
      rcases h.origin hb₂ with ⟨b, hb, htag'⟩ | ⟨hzero, hge, hlt⟩
      · exact .inl ⟨b, hb, htag.trans htag'⟩
      · refine .inr ⟨by omega, by omega, ?_⟩
        have := h'.serial
        omega
    · refine .inr ⟨hzero, ?_, hlt⟩
      have := h.serial
      omega

/-- What goes on with the answer of an operation spares what it spares. -/
theorem Spares.follow {ε α β : Type} {r : Except ε α × Database} {next : α → Database → Except ε β × Database}
    (h : db.Spares r.2) (hnext : ∀ x, r.1 = .ok x → r.2.Spares (next x r.2).2) :
    db.Spares (follow r next).2 := by
  obtain ⟨x | e, db'⟩ := r
  · exact h
  · exact h.trans (hnext _ rfl)

/-! ### Pages come and go -/

/-- Writing a buffer changes the disk and the mark on that buffer, or nothing. -/
theorem eq_of_writeBack (frame : Nat) (db : Database) :
    (∃ r, (writeBack frame).outcome db = (r, db))
      ∨ ∃ d, (writeBack frame).outcome db
          = (.ok (), { db with disk := d, cache := db.cache.modifyAt frame cleaned }) := by
  rw [outcome_writeBack]
  cases db.cache.bufferAt? frame with
  | none => exact .inl ⟨_, rfl⟩
  | some b =>
    dsimp only
    split
    · cases db.catalog.file b.page.id.table with
      | error e => exact .inl ⟨_, rfl⟩
      | ok f =>
        rw [Fallible.follow_ok]
        cases f.writePage db.disk b.page with
        | error e => exact .inl ⟨_, rfl⟩
        | ok d => exact .inr ⟨d, rfl⟩
    · exact .inl ⟨_, rfl⟩

/-- What does not depend on the mark of a buffer is not changed by writing one. -/
theorem map_bufferAt?_writeBack {γ : Type} {g : Buffer → γ} (hg : ∀ b, g (cleaned b) = g b) (frame : Nat)
    (db : Database) (i : Nat) :
    (((writeBack frame).outcome db).2.cache.bufferAt? i).map g = (db.cache.bufferAt? i).map g := by
  rcases eq_of_writeBack frame db with ⟨r, heq⟩ | ⟨d, heq⟩
  · rw [heq]
  · rw [heq]
    show ((db.cache.modifyAt frame cleaned).bufferAt? i).map g = _
    rw [PageCache.bufferAt?_modifyAt]
    split
    · rw [Option.map_map]
      exact congrArg (fun g => Option.map g _) (funext hg)
    · rfl

theorem tag_of_writeBack (frame : Nat) (db : Database) (i : Nat) :
    (((writeBack frame).outcome db).2.cache.bufferAt? i).map tag = (db.cache.bufferAt? i).map tag :=
  map_bufferAt?_writeBack (fun _ => rfl) frame db i

theorem pageTable_of_writeBack (frame : Nat) (db : Database) :
    ((writeBack frame).outcome db).2.cache.pageTable = db.cache.pageTable := by
  rcases eq_of_writeBack frame db with ⟨r, heq⟩ | ⟨d, heq⟩
  · rw [heq]
  · rw [heq]
    exact PageCache.pageTable_modifyFrame ..

theorem map_buffer?_writeBack {γ : Type} {g : Buffer → γ} (hg : ∀ b, g (cleaned b) = g b) (frame : Nat)
    (db : Database) (page : PageId) :
    (((writeBack frame).outcome db).2.cache.buffer? page).map g = (db.cache.buffer? page).map g := by
  rw [PageCache.buffer?, PageCache.buffer?, pageTable_of_writeBack]
  split
  · exact map_bufferAt?_writeBack hg ..
  · rfl

theorem tags_of_writeBack (frame : Nat) (db : Database) (page : PageId) :
    (((writeBack frame).outcome db).2.cache.buffer? page).map tag = (db.cache.buffer? page).map tag :=
  map_buffer?_writeBack (fun _ => rfl) frame db page

theorem spares_writeBack (h : db.cache.Coherent) (frame : Nat) :
    db.Spares ((writeBack frame).outcome db).2 := by
  have htags := tags_of_writeBack frame db
  rcases eq_of_writeBack frame db with ⟨r, heq⟩ | ⟨d, heq⟩
  · rw [heq]
    exact Spares.refl h
  · rw [heq] at htags ⊢
    exact Spares.of_tags (h.modifyAt fun _ _ => rfl) (PageCache.clock_modifyAt ..).2 rfl htags

/-- A page comes into a frame that nobody holds. -/
theorem spares_put (h : db.cache.Coherent) (hframe : frame < db.cache.clock.frames.length)
    (hfree : ∀ old, db.cache.bufferAt? frame = some old → old.isHeld = false) {p : Page}
    (hnew : db.cache.buffer? p.id = none) :
    let loaded : Buffer := { serial := db.nextSerial, page := p }
    db.Spares { db with cache := db.cache.put frame loaded, nextSerial := db.nextSerial + 1 } := by
  intro loaded
  have hbuffers := PageCache.buffer?_put h (b := loaded) hframe
  refine ⟨h.put hframe hnew, List.length_set, Nat.le_succ _, ?_, ?_⟩
  · intro page b hb hheld
    refine ⟨b, ?_, rfl⟩
    show (db.cache.put frame loaded).buffer? page = some b
    rw [hbuffers, if_neg, if_neg, hb]
    -- the page that leaves is not held
    · intro hvictim
      obtain ⟨old, hold, hid⟩ := Option.map_eq_some_iff.mp hvictim
      have hwas := (PageCache.buffer?_eq_some_iff h).mpr ⟨frame, hold, hid⟩
      rw [hb] at hwas
      cases hwas
      rw [hfree b hold] at hheld
      cases hheld
    -- the page that comes was not cached
    · intro hid
      rw [← hid] at hb
      rw [hnew] at hb
      cases hb
  · intro page b' hb'
    replace hb' : (db.cache.put frame loaded).buffer? page = some b' := hb'
    rw [hbuffers] at hb'
    split at hb'
    · cases hb'
      exact .inr ⟨rfl, Nat.le_refl _, Nat.lt_succ_self _⟩
    · split at hb'
      · cases hb'
      · exact .inl ⟨b', hb', rfl⟩

/-- The sweep for a frame. -/
theorem spares_findFrame (h : db.cache.Coherent) : db.Spares (findFrame.outcome db).2 := by
  rw [outcome_findFrame]
  exact Spares.of_buffer? h.sweep (Clock.length_sweep ..) rfl (PageCache.buffer?_sweep db.cache)

/-- The frame that a sweep finds is one that nobody holds. -/
theorem free_of_findFrame (hframe : (findFrame.outcome db).1 = .ok frame) :
    frame < (findFrame.outcome db).2.cache.clock.frames.length
      ∧ ∀ old, (findFrame.outcome db).2.cache.bufferAt? frame = some old → old.isHeld = false := by
  rw [outcome_findFrame] at hframe ⊢
  have hfound : db.cache.clock.evict.1 = some frame := by
    dsimp only at hframe
    split at hframe <;> cases hframe
    assumption
  obtain ⟨f, hf, hfree⟩ := Clock.isFree_of_sweep hfound
  refine ⟨(List.getElem?_eq_some_iff.mp hf).1, fun old hold => ?_⟩
  have hbuffer : f.buffer = some old := by
    simp only [PageCache.bufferAt?, Clock.frame?, Clock.evict, hf] at hold
    exact hold
  simp only [Frame.isFree, hbuffer, Bool.and_eq_true, Bool.not_eq_true'] at hfree
  exact hfree.2

theorem spares_loadPage (h : db.cache.Coherent) (hnone : db.cache.buffer? page = none) :
    db.Spares ((loadPage page).outcome db).2 := by
  rw [outcome_loadPage]
  refine Spares.follow (Spares.refl h) fun f _ => ?_
  dsimp only
  split
  · exact Spares.refl h
  · exact Spares.refl h
  · next p hread =>
    have hfound := spares_findFrame h
    refine Spares.follow hfound fun frame hframe => ?_
    obtain ⟨hlt, hfree⟩ := free_of_findFrame hframe
    have hwritten := spares_writeBack hfound.coherent frame
    refine Spares.follow hwritten fun _ _ => ?_
    refine spares_put hwritten.coherent (by rw [hwritten.frames]; exact hlt) (fun old hold => ?_) ?_
    · have htag := tag_of_writeBack frame (findFrame.outcome db).2 frame
      rw [hold] at htag
      obtain ⟨b, hb, heq⟩ := Option.map_eq_some_iff.mp htag.symm
      have hholders : b.holders = old.holders := congrArg Prod.snd heq
      rw [Buffer.isHeld, ← hholders]
      exact hfree b hb
    -- neither the sweep nor the writing brings the page in
    · rw [(HeapFile.wellFormed_of_readPage hread).2.1, ← Option.map_eq_none_iff (f := tag), tags_of_writeBack,
        outcome_findFrame]
      show (PageCache.buffer? { db.cache with clock := db.cache.clock.evict.2 } page).map tag = none
      rw [PageCache.buffer?_sweep, hnone]
      rfl

/-- Asking for a page spares held buffers, and a page that is given is cached. -/
theorem spares_getPage (h : db.cache.Coherent) (page : PageId) :
    db.Spares ((getPage page).outcome db).2 := by
  rw [outcome_getPage]
  cases ht : db.cache.touch page with
  | none => exact spares_loadPage h (PageCache.touch_eq_none_iff.mp ht)
  | some found =>
    obtain ⟨b, cache⟩ := found
    obtain ⟨hcoherent, -, hbuffers, hframes⟩ := h.touch ht
    exact Spares.of_buffer? hcoherent hframes rfl hbuffers

/-- Who asks for a cached page gets its buffer. -/
theorem getPage_of_buffer? (h : db.cache.Coherent) (hb : db.cache.buffer? page = some b) :
    ((getPage page).outcome db).1 = .ok b := by
  rw [outcome_getPage]
  cases ht : db.cache.touch page with
  | none =>
    rw [PageCache.touch_eq_none_iff, hb] at ht
    cases ht
  | some found =>
    obtain ⟨b', cache⟩ := found
    obtain ⟨-, hb', -, -⟩ := h.touch ht
    rw [hb] at hb'
    cases hb'
    rfl

/-- A page that is given is cached. -/
theorem buffer?_of_getPage (h : db.cache.Coherent) (hget : ((getPage page).outcome db).1 = .ok b) :
    ((getPage page).outcome db).2.cache.buffer? page = some b := by
  rw [outcome_getPage] at hget ⊢
  cases ht : db.cache.touch page with
  | some found =>
    obtain ⟨b', cache⟩ := found
    rw [ht] at hget
    obtain ⟨-, hb, hbuffers, -⟩ := h.touch ht
    cases hget
    exact (hbuffers page).trans hb
  | none =>
    rw [ht] at hget
    dsimp only at hget ⊢
    rw [outcome_loadPage] at hget ⊢
    -- an answer comes from the last of four steps
    obtain ⟨f, -, heq⟩ := Fallible.exists_of_follow_ok hget
    rw [heq] at hget ⊢
    dsimp only at hget ⊢
    split at hget
    · cases hget
    · cases hget
    · next p hread =>
      obtain ⟨frame, hframe, heq₁⟩ := Fallible.exists_of_follow_ok hget
      rw [heq₁] at hget ⊢
      obtain ⟨_, -, heq₂⟩ := Fallible.exists_of_follow_ok hget
      rw [heq₂] at hget ⊢
      cases hget
      have hfound := spares_findFrame h
      have hwritten := spares_writeBack hfound.coherent frame
      show (PageCache.put _ frame _).buffer? page = _
      rw [PageCache.buffer?_put hwritten.coherent (by rw [hwritten.frames]; exact (free_of_findFrame hframe).1),
        if_pos ((HeapFile.wellFormed_of_readPage hread).2.1)]

/-! ### Changes of tables -/

theorem spares_findRoom (h : db.cache.Coherent) (table : TableId) (first count : Nat) :
    db.Spares ((findRoom table first count).outcome db).2 := by
  -- on the number of pages left to look at, over all databases: each look may change the cache
  induction count generalizing db first with
  | zero => exact Spares.refl h
  | succ count ih =>
    rw [outcome_findRoom_succ]
    have hget := spares_getPage h ⟨table, first⟩
    refine Spares.follow hget fun b _ => ?_
    split
    · exact Spares.refl hget.coherent
    · exact ih hget.coherent (first + 1)

theorem spares_roomFor (h : db.cache.Coherent) (f : HeapFile) :
    db.Spares ((roomFor f).outcome db).2 := by
  rw [outcome_roomFor]
  have hfind := spares_findRoom h f.id 0 (f.pageCount db.disk)
  refine Spares.follow hfind fun found _ => ?_
  cases found with
  | some page => exact Spares.refl hfind.coherent
  | none =>
    refine Spares.follow (Spares.refl hfind.coherent) fun p _ => ?_
    refine Spares.follow (Spares.refl hfind.coherent) fun d _ => ?_
    exact Spares.of_buffer? hfind.coherent rfl rfl fun _ => rfl

/-- Another page with the same id in a cached buffer, marked as changed. -/
theorem spares_change (h : db.cache.Coherent) (hb : db.cache.buffer? page = some b) {p : Page}
    (hid : p.id = b.page.id) (txn : TxnId) :
    db.Spares { db with cache :=
      (db.cache.modify page fun b => { b with page := p }).markChanged txn page } := by
  have hmodify : (db.cache.modify page fun b => { b with page := p }).Coherent := by
    refine h.modify fun b' hb' => ?_
    rw [hb] at hb'
    cases hb'
    exact hid
  refine Spares.of_tags (hmodify.markChanged txn page) ?_ rfl fun q => ?_
  · exact (PageCache.length_modify ..).trans (PageCache.length_modify ..)
  · show (PageCache.buffer? (PageCache.markChanged _ txn page) q).map tag = _
    rw [PageCache.buffer?_markChanged hmodify, PageCache.buffer?_modify h]
    split
    · rw [Option.map_map, Option.map_map]
      rfl
    · rfl

theorem spares_insertRow (h : db.cache.Coherent) (txn : TxnId) (table : TableId) (row : Row) :
    db.Spares ((insertRow txn table row).outcome db).2 := by
  rw [outcome_insertRow]
  refine Spares.follow (Spares.refl h) fun f _ => ?_
  dsimp only
  split
  · have hroom := spares_roomFor h f
    refine Spares.follow hroom fun page _ => ?_
    have hget := spares_getPage hroom.coherent page
    refine Spares.follow hget fun b hb => ?_
    refine Spares.follow (Spares.refl hget.coherent) fun result hresult => ?_
    exact spares_change hget.coherent (buffer?_of_getPage hroom.coherent hb) (Page.id_of_insert hresult) txn
  · exact Spares.refl h

theorem spares_deleteRow (h : db.cache.Coherent) (txn : TxnId) (row : Row) :
    db.Spares ((deleteRow txn row).outcome db).2 := by
  rw [outcome_deleteRow]
  split
  · exact Spares.refl h
  · next record _ =>
    refine Spares.follow (Spares.refl h) fun f _ => ?_
    split
    · exact Spares.refl h
    · have hget := spares_getPage h record.page
      refine Spares.follow hget fun b hb => ?_
      refine Spares.follow (Spares.refl hget.coherent) fun p hp => ?_
      exact spares_change hget.coherent (buffer?_of_getPage h hb) (Page.id_of_delete hp) txn

/-! ### Flushes -/

theorem spares_writePages (h : db.cache.Coherent) (pages : List PageId) :
    db.Spares ((writePages pages).outcome db).2 := by
  induction pages generalizing db with
  | nil => exact Spares.refl h
  | cons page pages ih =>
    rw [outcome_writePages_cons]
    cases db.cache.pageTable.get? page with
    | none => exact ih h
    | some frame =>
      have hwritten := spares_writeBack h frame
      exact Spares.follow hwritten fun _ _ => ih hwritten.coherent

/-- What the cache remembers of transactions is not about buffers. -/
theorem spares_forget (h : db.cache.Coherent) (changed : Assoc TxnId (List PageId)) :
    db.Spares { db with cache := { db.cache with changed := changed } } :=
  Spares.of_buffer? ⟨h.hand_lt, h.bufferAt, h.frameOf⟩ rfl rfl fun _ => rfl

theorem spares_flush (h : db.cache.Coherent) : db.Spares (flush.outcome db).2 := by
  rw [outcome_flush]
  have hwritten := spares_writePages h db.cache.pageTable.keys
  exact Spares.follow hwritten fun _ _ => spares_forget hwritten.coherent {}

theorem spares_flushPages (h : db.cache.Coherent) (txn : TxnId) :
    db.Spares ((flushPages txn).outcome db).2 := by
  rw [outcome_flushPages]
  have hforget := spares_forget h (db.cache.changed.erase txn)
  exact hforget.trans (spares_writePages hforget.coherent _)

/-- A page that is dropped is not held. -/
theorem spares_discardPage (h : db.cache.Coherent) (page : PageId) :
    db.Spares ((discardPage page : DbM StorageError Bool).outcome db).2 := by
  show db.Spares { db with cache := (db.cache.drop page).2 }
  have hbuffers := PageCache.buffer?_drop h page
  refine ⟨h.drop page, PageCache.length_drop h page, Nat.le_refl _, ?_, ?_⟩
  · intro q b hb hheld
    refine ⟨b, ?_, rfl⟩
    show (db.cache.drop page).2.buffer? q = some b
    rw [hbuffers, if_neg, hb]
    rintro ⟨hdrop, rfl⟩
    rw [PageCache.drop_of_isHeld h hb hheld] at hdrop
    cases hdrop
  · intro q b hb
    replace hb : (db.cache.drop page).2.buffer? q = some b := hb
    rw [hbuffers] at hb
    split at hb
    · cases hb
    · exact .inl ⟨b, hb, rfl⟩

theorem Spares.map {ε α β : Type} {op : DbM ε α} {f : α → β} (h : db.Spares (op.outcome db).2) :
    db.Spares ((f <$> op).outcome db).2 := by
  rw [Fallible.outcome_map]
  exact Spares.follow h fun _ _ => Spares.refl h.coherent

/-- Every call of a cache spares held buffers. -/
theorem spares_call (h : db.cache.Coherent) (call : CacheCall) :
    db.Spares (call.run.outcome db).2 := by
  cases call with
  | getPage page => exact (spares_getPage h page).map
  | insert txn table row => exact (spares_insertRow h txn table row).map
  | delete txn row => exact (spares_deleteRow h txn row).map
  | flush => exact (spares_flush h).map
  | flushPages txn => exact (spares_flushPages h txn).map

end Database

/-! ### Callers -/

namespace Pool

open Database (Spares tag)

variable {pool : Pool} {n : Nat} {h : Handle}

/-- Every buffer counts the callers that hold it, and every buffer that a caller holds is cached. Serial numbers that
are still to come are not in use. -/
structure Tended (n : Nat) (pool : Pool) : Prop where
  coherent : pool.db.cache.Coherent
  frames : pool.db.cache.clock.frames.length = n
  counted : ∀ {page : PageId} {b : Buffer}, pool.db.cache.buffer? page = some b →
    b.holders = pool.held.count ⟨page, b.serial⟩
  kept : ∀ {h : Handle}, h ∈ pool.held → ∃ b, pool.db.cache.buffer? h.page = some b ∧ b.serial = h.serial
  serial : ∀ {page : PageId} {b : Buffer}, pool.db.cache.buffer? page = some b → b.serial < pool.db.nextSerial

/-- A cache starts out tended: there is nothing in it. -/
theorem tended_ofSize (n : Nat) (start : Database) :
    Tended n ⟨{ start with cache := PageCache.ofSize n }, []⟩ := by
  have hnone := PageCache.buffer?_ofSize n
  refine ⟨PageCache.coherent_ofSize n, List.length_replicate, ?_, ?_, ?_⟩
  · intro page b hb
    rw [hnone] at hb
    cases hb
  · intro h hh
    cases hh
  · intro page b hb
    rw [hnone] at hb
    cases hb

/-- A buffer that a caller holds is marked as held. -/
theorem Tended.isHeld (hpool : pool.Tended n) (hh : h ∈ pool.held) :
    ∃ b, pool.db.cache.buffer? h.page = some b ∧ b.serial = h.serial ∧ b.isHeld = true := by
  obtain ⟨b, hb, hserial⟩ := hpool.kept hh
  refine ⟨b, hb, hserial, ?_⟩
  have hcount : 0 < pool.held.count h := List.count_pos_iff.mpr hh
  rw [Buffer.isHeld, hpool.counted hb, hserial]
  exact decide_eq_true hcount

/-- Whatever spares held buffers keeps a cache tended. -/
theorem Tended.of_spares (hpool : pool.Tended n) {db : Database} (hspares : pool.db.Spares db) :
    Tended n ⟨db, pool.held⟩ := by
  have hstays : ∀ {h : Handle}, h ∈ pool.held →
      ∃ b, db.cache.buffer? h.page = some b ∧ b.serial = h.serial ∧ b.isHeld = true := by
    intro h hh
    obtain ⟨b, hb, hserial, hheld⟩ := hpool.isHeld hh
    obtain ⟨b', hb', htag⟩ := hspares.held hb hheld
    have hserial' : b'.serial = b.serial := congrArg Prod.fst htag
    have hholders' : b'.holders = b.holders := congrArg Prod.snd htag
    exact ⟨b', hb', hserial'.trans hserial, by rw [Buffer.isHeld, hholders']; exact hheld⟩
  refine ⟨hspares.coherent, hspares.frames.trans hpool.frames, ?_, ?_, ?_⟩
  · intro page b' hb'
    rcases hspares.origin hb' with ⟨b, hb, htag⟩ | ⟨hzero, -, -⟩
    · have hserial : b'.serial = b.serial := congrArg Prod.fst htag
      have hholders : b'.holders = b.holders := congrArg Prod.snd htag
      rw [hholders, hserial]
      exact hpool.counted hb
    -- a buffer that came in has another number than those that callers hold
    · rw [hzero, eq_comm, List.count_eq_zero]
      intro hh
      obtain ⟨b, hb, hserial, hheld⟩ := hstays hh
      rw [hb'] at hb
      cases hb
      rw [Buffer.isHeld, hzero] at hheld
      cases hheld
  · intro h hh
    obtain ⟨b, hb, hserial, -⟩ := hstays hh
    exact ⟨b, hb, hserial⟩
  · intro page b' hb'
    rcases hspares.origin hb' with ⟨b, hb, htag⟩ | ⟨-, -, hlt⟩
    · have hserial : b'.serial = b.serial := congrArg Prod.fst htag
      have := hpool.serial hb
      have := hspares.serial
      show b'.serial < db.nextSerial
      omega
    · exact hlt

/-- The caller's part of a buffer is a number in it. -/
theorem modifyBuffer_of_buffer? {db : Database} {b : Buffer} (hb : db.cache.buffer? h.page = some b)
    (hserial : b.serial = h.serial) (change : Buffer → Buffer) :
    db.modifyBuffer h change = { db with cache := db.cache.modify h.page change } := by
  simp only [Database.modifyBuffer, hb, hserial, if_true]

/-- The number of holders of a cached buffer changes together with the list of what is held. -/
theorem Tended.recount (hpool : pool.Tended n) {b : Buffer} (hb : pool.db.cache.buffer? h.page = some b)
    (hserial : b.serial = h.serial) (recount : Nat → Nat) {held : List Handle}
    (hsame : held.count h = recount (pool.held.count h))
    (hother : ∀ h', h' ≠ h → held.count h' = pool.held.count h')
    (hsub : ∀ h', h' ∈ held → h' = h ∨ h' ∈ pool.held) :
    Tended n ⟨pool.db.modifyBuffer h fun b => { b with holders := recount b.holders }, held⟩ := by
  rw [modifyBuffer_of_buffer? hb hserial]
  have hbuffers := PageCache.buffer?_modify hpool.coherent h.page fun b => { b with holders := recount b.holders }
  have hnames : ∀ {page : PageId} {b' : Buffer},
      (pool.db.cache.modify h.page fun b => { b with holders := recount b.holders }).buffer? page = some b' →
      ∃ b₀, pool.db.cache.buffer? page = some b₀ ∧ b'.serial = b₀.serial
        ∧ b'.holders = if page = h.page then recount b₀.holders else b₀.holders := by
    intro page b' hb'
    rw [hbuffers] at hb'
    split at hb'
    · next heq =>
      obtain ⟨b₀, hb₀, rfl⟩ := Option.map_eq_some_iff.mp hb'
      exact ⟨b₀, hb₀, rfl, by rw [if_pos heq.symm]⟩
    · next hne => exact ⟨b', hb', rfl, by rw [if_neg (Ne.symm hne)]⟩
  refine ⟨hpool.coherent.modify fun _ _ => rfl, (PageCache.length_modify ..).trans hpool.frames, ?_, ?_, ?_⟩
  · intro page b' hb'
    obtain ⟨b₀, hb₀, hs, hholders⟩ := hnames hb'
    rw [hholders, hs]
    split
    · next heq =>
      subst heq
      rw [hb] at hb₀
      cases hb₀
      rw [hpool.counted hb, hserial]
      exact hsame.symm
    · next hne =>
      rw [hpool.counted hb₀, hother]
      rintro rfl
      exact hne rfl
  · intro h' hh'
    have hold : ∃ b₀, pool.db.cache.buffer? h'.page = some b₀ ∧ b₀.serial = h'.serial := by
      rcases hsub h' hh' with rfl | hmem
      · exact ⟨b, hb, hserial⟩
      · exact hpool.kept hmem
    obtain ⟨b₀, hb₀, hs⟩ := hold
    show ∃ b, PageCache.buffer? (PageCache.modify _ _ _) h'.page = some b ∧ _
    rw [hbuffers, hb₀]
    split
    · exact ⟨_, rfl, hs⟩
    · exact ⟨_, rfl, hs⟩
  · intro page b' hb'
    obtain ⟨b₀, hb₀, hs, -⟩ := hnames hb'
    rw [hs]
    exact hpool.serial hb₀

/-- Whoever keeps a cached buffer is counted. -/
theorem Tended.hold (hpool : pool.Tended n) {b : Buffer} (hb : pool.db.cache.buffer? h.page = some b)
    (hserial : b.serial = h.serial) : Tended n ⟨pool.db.hold h, h :: pool.held⟩ := by
  refine hpool.recount hb hserial (· + 1) List.count_cons_self ?_ fun h' hh' => List.mem_cons.mp hh'
  intro h' hne
  exact List.count_cons_of_ne (Ne.symm hne)

/-- Whoever lets a buffer go is counted no more. -/
theorem Tended.release (hpool : pool.Tended n) (hh : h ∈ pool.held) :
    Tended n ⟨pool.db.release h, pool.held.erase h⟩ := by
  obtain ⟨b, hb, hserial⟩ := hpool.kept hh
  refine hpool.recount hb hserial (· - 1) List.count_erase_self ?_ fun h' hh' =>
    .inr (List.mem_of_mem_erase hh')
  intro h' hne
  exact List.count_erase_of_ne hne

/-- Every call keeps a cache tended. -/
theorem tended_step (hpool : pool.Tended n) (call : PoolCall) : (pool.step call).Tended n := by
  cases call with
  | cache call => exact hpool.of_spares (Database.spares_call hpool.coherent call)
  | keep page =>
    have hget := hpool.of_spares (Database.spares_getPage hpool.coherent page)
    have hcached := @Database.buffer?_of_getPage pool.db page
    simp only [step]
    generalize (Database.getPage page).outcome pool.db = r at hget hcached ⊢
    obtain ⟨e | b, db⟩ := r
    · exact hget
    · exact hget.hold (hcached hpool.coherent rfl) rfl
  | release h =>
    simp only [step]
    split
    · next hh => exact hpool.release hh
    · exact hpool
  | discard page => exact hpool.of_spares (Database.spares_discardPage hpool.coherent page)

theorem tended_run (hpool : pool.Tended n) (calls : List PoolCall) : (run calls pool).Tended n := by
  induction calls generalizing pool with
  | nil => exact hpool
  | cons call calls ih => exact ih (tended_step hpool call)

/-! ### What callers can rely on -/

/-- What holds in every state that callers can bring a cache of `n` frames to. -/
structure Lawful (n : Nat) (pool : Pool) : Prop where
  /-- The page table and the frames tell the same. -/
  table_iff : ∀ page frame, pool.db.cache.pageTable.get? page = some frame
    ↔ ∃ b, pool.db.cache.bufferAt? frame = some b ∧ b.page.id = page
  /-- No page stands in two frames. -/
  once : ∀ i j b b', pool.db.cache.bufferAt? i = some b → pool.db.cache.bufferAt? j = some b' →
    b.page.id = b'.page.id → i = j
  /-- No more pages are cached than there are frames. -/
  few : ∀ pages : List PageId, pages.Nodup → (∀ page ∈ pages, pool.db.cache.isCached page = true) →
    pages.length ≤ n
  /-- A held buffer is the cached one of its page: it is what `getPage` gives, and it cannot be dropped. -/
  held : ∀ h ∈ pool.held, ∃ b, pool.db.cache.buffer? h.page = some b ∧ b.serial = h.serial
    ∧ ((Database.getPage h.page).outcome pool.db).1 = .ok b
    ∧ (Database.discardPage h.page : DbM StorageError Bool).outcome pool.db = (.ok false, pool.db)
  /-- It stays so, whatever is called, until it is let go. -/
  stays : ∀ h ∈ pool.held, ∀ call, call ≠ .release h →
    h ∈ (pool.step call).held
      ∧ ∃ b, (pool.step call).db.cache.buffer? h.page = some b ∧ b.serial = h.serial
  /-- A buffer that is loaded is not taken for one that was there before. -/
  fresh : ∀ page b db, (Database.getPage page).outcome pool.db = (.ok b, db) →
    pool.db.cache.buffer? page = none →
    ∀ q b', pool.db.cache.buffer? q = some b' → b'.serial ≠ b.serial
  /-- A page that is refused leaves everything as it was. -/
  refused : ∀ page e db, (Database.getPage page).outcome pool.db = (.error e, db) →
    db.cache.pageTable = pool.db.cache.pageTable
      ∧ (∀ frame, db.cache.bufferAt? frame = pool.db.cache.bufferAt? frame)
      ∧ db.disk = pool.db.disk ∧ db.store = pool.db.store

end Pool

namespace Database

variable {db db' : Database} {page : PageId} {e : StorageError}

/-- A page that is refused moves the hand of the clock, and takes from the usage of frames; nothing else happens. -/
theorem eq_of_getPage_error (hget : (getPage page).outcome db = (.error e, db')) :
    ∃ clock, clock.buffers = db.cache.clock.buffers
      ∧ db' = { db with cache := { db.cache with clock := clock } } := by
  have hself : ∃ clock, clock.buffers = db.cache.clock.buffers
      ∧ db = { db with cache := { db.cache with clock := clock } } := ⟨db.cache.clock, rfl, rfl⟩
  rw [outcome_getPage] at hget
  cases ht : db.cache.touch page with
  | some found =>
    rw [ht] at hget
    cases hget
  | none =>
    rw [ht] at hget
    dsimp only at hget
    rw [outcome_loadPage] at hget
    cases hf : db.catalog.file page.table with
    | error e' =>
      rw [hf] at hget
      cases hget
      exact hself
    | ok f =>
      rw [hf, Fallible.follow_ok] at hget
      rcases hread : f.readPage db.disk page with e' | _ | p
      · rw [hread] at hget
        cases hget
        exact hself
      · rw [hread] at hget
        cases hget
        exact hself
      · simp only [hread, outcome_findFrame] at hget
        have hswept : (db.cache.clock.evict.2).buffers = db.cache.clock.buffers := Clock.buffers_sweep ..
        cases hfound : db.cache.clock.evict.1 with
        | none =>
          simp only [hfound, Fallible.follow_error] at hget
          cases hget
          exact ⟨_, hswept, rfl⟩
        | some frame =>
          -- a buffer that could not be written stays in its frame, as it was
          simp only [hfound, Fallible.follow_ok] at hget
          rcases eq_of_writeBack frame { db with cache := { db.cache with clock := db.cache.clock.evict.2 } } with
            ⟨e' | _, heq⟩ | ⟨d, heq⟩
          · rw [heq] at hget
            cases hget
            exact ⟨_, hswept, rfl⟩
          · rw [heq] at hget
            cases hget
          · rw [heq] at hget
            cases hget

end Database

namespace Pool

variable {pool : Pool} {n : Nat}

/-- Pages of a table are as many as frames at most. -/
theorem Tended.length_le (hpool : pool.Tended n) {pages : List PageId} (hnodup : pages.Nodup)
    (hcached : ∀ page ∈ pages, pool.db.cache.isCached page = true) : pages.length ≤ n := by
  let frameOf : PageId → Nat := fun page => (pool.db.cache.pageTable.get? page).getD n
  have hget : ∀ page ∈ pages, pool.db.cache.pageTable.get? page = some (frameOf page) := by
    intro page hpage
    obtain ⟨frame, hframe⟩ := Option.isSome_iff_exists.mp (hcached page hpage)
    show _ = some ((pool.db.cache.pageTable.get? page).getD n)
    rw [hframe]
    rfl
  -- different pages stand in different frames, and all of them in the ring
  have hinj : ∀ page ∈ pages, ∀ page' ∈ pages, frameOf page = frameOf page' → page = page' := by
    intro page hpage page' hpage' heq
    by_contra hne
    exact hpool.coherent.frame_ne (hget page hpage) (hget page' hpage') hne heq
  have hlt : ∀ i ∈ pages.map frameOf, i ∈ List.range n := by
    intro i hi
    obtain ⟨page, hpage, rfl⟩ := List.mem_map.mp hi
    obtain ⟨b, hb, -⟩ := hpool.coherent.bufferAt (hget page hpage)
    rw [List.mem_range, ← hpool.frames]
    exact PageCache.lt_of_bufferAt? hb
  have hle := (hnodup.map_on hinj).subperm hlt |>.length_le
  rwa [List.length_map, List.length_range] at hle

theorem held_step {h : Handle} {call : PoolCall} (hh : h ∈ pool.held) (hcall : call ≠ .release h) :
    h ∈ (pool.step call).held := by
  cases call with
  | cache call => exact hh
  | keep page =>
    simp only [step]
    split
    · exact List.mem_cons_of_mem _ hh
    · exact hh
  | release h' =>
    simp only [step]
    split
    · exact (List.mem_erase_of_ne fun heq => hcall (by rw [heq])).mpr hh
    · exact hh
  | discard page => exact hh

theorem Tended.lawful (hpool : pool.Tended n) : pool.Lawful n := by
  have hco := hpool.coherent
  constructor
  · intro page frame
    constructor
    · exact hco.bufferAt
    · rintro ⟨b, hb, rfl⟩
      exact hco.frameOf hb
  · intro i j b b' hb hb' hid
    have hi := hco.frameOf hb
    rw [hid, hco.frameOf hb'] at hi
    exact (Option.some.inj hi).symm
  · intro pages hnodup hcached
    exact hpool.length_le hnodup hcached
  · intro h hh
    obtain ⟨b, hb, hserial, hheld⟩ := hpool.isHeld hh
    refine ⟨b, hb, hserial, Database.getPage_of_buffer? hco hb, ?_⟩
    show (Except.ok (pool.db.cache.drop h.page).1, { pool.db with cache := (pool.db.cache.drop h.page).2 }) = _
    rw [PageCache.drop_of_isHeld hco hb hheld]
  · intro h hh call hcall
    have hheld := held_step hh hcall
    exact ⟨hheld, (tended_step hpool call).kept hheld⟩
  · intro page b db hget hnone q b' hb' hserial
    -- the loaded buffer has a number that was still to come
    have hspares := Database.spares_getPage hco page
    have hok : ((Database.getPage page).outcome pool.db).1 = .ok b := by rw [hget]
    have hcached := Database.buffer?_of_getPage hco hok
    rcases hspares.origin hcached with ⟨b₀, hb₀, -⟩ | ⟨-, hge, -⟩
    · rw [hnone] at hb₀
      cases hb₀
    · have := hpool.serial hb'
      omega
  · intro page e db hget
    obtain ⟨clock, hbuffers, rfl⟩ := Database.eq_of_getPage_error hget
    have hbuffers' : ({ pool.db.cache with clock := clock } : PageCache).clock.buffers
        = pool.db.cache.clock.buffers := hbuffers
    exact ⟨rfl, PageCache.bufferAt?_congr hbuffers', rfl,
      Database.store_of_buffer? rfl rfl (PageCache.buffer?_of_buffers hbuffers' rfl)⟩

/-- Whatever callers do with a cache that starts out empty, held buffers stay the cached ones of their pages, page
table and frames tell the same, and a page that is refused leaves everything as it was. -/
theorem lawful_run (n : Nat) (start : Database) (calls : List PoolCall) :
    (run calls ⟨{ start with cache := PageCache.ofSize n }, []⟩).Lawful n :=
  (tended_run (tended_ofSize n start) calls).lawful

/-- A held page in the only frame is in the way of every other page. -/
example :
    let pool := run [.cache (CacheCall.note "a"), .cache (CacheCall.note "b"), .keep ⟨CacheCall.notesFile.id, 0⟩]
      ⟨CacheCall.notes 1, []⟩
    ((Database.getPage ⟨CacheCall.notesFile.id, 1⟩).outcome pool.db).1 = .error .noFreeBuffer := by
  decide +kernel

end Pool

end RelStore
