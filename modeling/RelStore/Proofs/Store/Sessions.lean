/-
Asking for pages while the catalog changes.

Tables may be registered, replaced and forgotten, and files changed from outside, while pages of theirs are cached.

* `SessionCall`, `Session.run` — what callers do to a cache, and what others do to the catalog and the disk below it;
* `Session.tended_run` — held buffers are looked after all the same;
* `Clock.evict_evict` — until something is put into a frame, the clock picks the same one again;
* `Database.Spare`, `Database.CanLeave` — there is a frame that nobody holds; the page in a frame can be written;
* `Session.getPage_of_reached` — so a page that can be read is given unless the page in the frame that the clock picks
  cannot be written; then this one is in the way of every page that is not cached, for as long as nothing else changes.

Design notes.  Nothing is assumed of the catalog or the disk: a cached page may belong to a table that is gone, and a
file may be shorter than it was.
-/
import RelStore.Proofs.Store.Holding

namespace RelStore


/-- What can happen to a cache and to what is below it. -/
inductive SessionCall where
  /-- Somebody calls the cache, keeps a buffer, lets one go or drops a page. -/
  | pool (call : PoolCall)
  /-- A file is registered under a name. -/
  | register (file : HeapFile) (name : String) (key : Option String)
  /-- All tables are forgotten. -/
  | clear
  /-- Files are opened, written or cut, past the cache. -/
  | outside (disk : Disk)

namespace Session

/-- What happens at a call. -/
def step (pool : Pool) : SessionCall → Pool
  | .pool call => pool.step call
  | .register file name key =>
    { pool with db := { pool.db with catalog := pool.db.catalog.register file name key } }
  | .clear => { pool with db := { pool.db with catalog := Catalog.empty } }
  | .outside disk => { pool with db := { pool.db with disk := disk } }

/-- What some calls do, one after the other. -/
def run (calls : List SessionCall) (pool : Pool) : Pool :=
  calls.foldl step pool

variable {pool : Pool} {n : Nat}

/-- A call of somebody who is not at the cache leaves the cache as it is. -/
theorem step_eq (pool : Pool) (call : SessionCall) :
    (∃ c, call = .pool c ∧ step pool call = pool.step c)
      ∨ ∃ catalog disk, (∀ c, call ≠ .pool c)
        ∧ step pool call = ⟨{ pool.db with catalog := catalog, disk := disk }, pool.held⟩ := by
  cases call with
  | pool c => exact .inl ⟨c, rfl, rfl⟩
  | register file name key => exact .inr ⟨_, _, fun _ => nofun, rfl⟩
  | clear => exact .inr ⟨_, _, fun _ => nofun, rfl⟩
  | outside disk => exact .inr ⟨_, _, fun _ => nofun, rfl⟩

/-- Every call keeps a cache tended. -/
theorem tended_step (hpool : pool.Tended n) (call : SessionCall) : (step pool call).Tended n := by
  rcases step_eq pool call with ⟨c, -, heq⟩ | ⟨catalog, disk, -, heq⟩
  · rw [heq]
    exact Pool.tended_step hpool c
  · rw [heq]
    exact hpool.of_spares (Database.Spares.of_buffer? hpool.coherent rfl rfl fun _ => rfl)

theorem tended_run (hpool : pool.Tended n) (calls : List SessionCall) : (run calls pool).Tended n := by
  induction calls generalizing pool with
  | nil => exact hpool
  | cons call calls ih => exact ih (tended_step hpool call)

end Session

/-! ### The frame that the clock picks -/

namespace Clock

variable {c : Clock} {run i : Nat}

/-- A sweep stops with the hand at the frame that it found. -/
theorem hand_of_sweep (h : (c.sweep run).1 = some i) : (c.sweep run).2.hand = i := by
  fun_induction sweep c run with
  | case1 c run hf => cases h
  | case2 c run f hf hfree => exact Option.some.inj h
  | case3 c run f hf hfree hheld hrun => cases h
  | case4 c run f hf hfree hheld hrun ih => exact ih h
  | case5 c run f hf hfree hheld ih => exact ih h

/-- A frame that was found is found again at once. -/
theorem evict_evict (h : c.evict.1 = some i) : c.evict.2.evict = (some i, c.evict.2) := by
  obtain ⟨f, hf, hfree⟩ := isFree_of_sweep h
  have hhand := hand_of_sweep h
  rw [← hhand] at hf
  show sweep (c.sweep 0).2 0 = _
  rw [sweep]
  split
  · next hnone =>
    rw [hf] at hnone
    cases hnone
  · next f' hf' =>
    rw [hf] at hf'
    cases hf'
    rw [dif_pos hfree, hhand]
    rfl

end Clock

namespace Database

variable {db : Database} {page : PageId} {frame : Nat} {e : StorageError}

/-- There is a frame that is empty, or has a buffer that nobody holds. -/
def Spare (db : Database) : Prop :=
  ∃ i < db.cache.clock.frames.length, ∀ b, db.cache.bufferAt? i = some b → b.isHeld = false

/-- The buffer in a frame need not be written, or can be. -/
def CanLeave (db : Database) (frame : Nat) : Prop :=
  ∀ b, db.cache.bufferAt? frame = some b → b.dirty = true →
    ∃ f d, db.catalog.file b.page.id.table = .ok f ∧ f.writePage db.disk b.page = .ok d

/-- Why a buffer cannot be written: its table is gone, or the disk refuses. -/
def RefusedWith (db : Database) (b : Buffer) (e : StorageError) : Prop :=
  db.catalog.file b.page.id.table = .error e
    ∨ ∃ f, db.catalog.file b.page.id.table = .ok f ∧ f.writePage db.disk b.page = .error e

theorem RefusedWith.unique {b : Buffer} {e e' : StorageError} (h : db.RefusedWith b e) (h' : db.RefusedWith b e') :
    e' = e := by
  rcases h with hgone | ⟨f, hf, hw⟩ <;> rcases h' with hgone' | ⟨f', hf', hw'⟩
  · exact Except.error.inj (hgone'.symm.trans hgone)
  · cases hgone.symm.trans hf'
  · cases hgone'.symm.trans hf
  · cases hf.symm.trans hf'
    exact Except.error.inj (hw'.symm.trans hw)

theorem RefusedWith.not_canLeave {b : Buffer} (h : db.RefusedWith b e) (hb : db.cache.bufferAt? frame = some b)
    (hdirty : b.dirty = true) : ¬ db.CanLeave frame := by
  intro hleave
  obtain ⟨f, d, hf, hw⟩ := hleave b hb hdirty
  rcases h with hgone | ⟨f', hf', hw'⟩
  · cases hgone.symm.trans hf
  · cases hf.symm.trans hf'
    cases hw.symm.trans hw'

/-- A buffer is written, and its frame can be left, or it is refused. -/
theorem writeBack_cases (db : Database) (frame : Nat) :
    (db.CanLeave frame ∧ ((writeBack frame).outcome db).1 = .ok ())
      ∨ ∃ b e, db.cache.bufferAt? frame = some b ∧ b.dirty = true ∧ db.RefusedWith b e
        ∧ (writeBack frame).outcome db = (.error e, db) := by
  rw [outcome_writeBack]
  cases hb : db.cache.bufferAt? frame with
  | none =>
    refine .inl ⟨fun b hb' => ?_, rfl⟩
    cases hb.symm.trans hb'
  | some b =>
    have hsame : ∀ b', db.cache.bufferAt? frame = some b' → b' = b := fun b' hb' =>
      Option.some.inj (hb'.symm.trans hb)
    dsimp only
    by_cases hdirty : b.dirty = true
    · rw [if_pos hdirty]
      cases hf : db.catalog.file b.page.id.table with
      | error e => exact .inr ⟨b, e, rfl, hdirty, .inl hf, rfl⟩
      | ok f =>
        rw [Fallible.follow_ok]
        cases hw : f.writePage db.disk b.page with
        | error e => exact .inr ⟨b, e, rfl, hdirty, .inr ⟨f, hf, hw⟩, rfl⟩
        | ok d =>
          refine .inl ⟨fun b' hb' _ => ?_, rfl⟩
          rw [hsame b' hb']
          exact ⟨f, d, hf, hw⟩
    · rw [if_neg hdirty]
      refine .inl ⟨fun b' hb' hdirty' => ?_, rfl⟩
      rw [hsame b' hb'] at hdirty'
      exact absurd hdirty' hdirty

/-- The clock finds a frame as long as there is one that nobody holds. -/
theorem spare_iff (h : db.cache.Coherent) : db.Spare ↔ ∃ frame, db.cache.clock.evict.1 = some frame := by
  constructor
  · rintro ⟨i, hi, hfree⟩
    by_contra hnone
    rw [← Option.ne_none_iff_exists', not_not] at hnone
    obtain ⟨b, hb, hheld⟩ := Clock.isHeld_of_sweep_eq_none (h.hand_lt (by omega)) (by omega)
      (fun k h1 h2 => by omega) hnone i hi
    have hat : db.cache.bufferAt? i = some b := by
      rw [PageCache.bufferAt?_eq, hb]
      rfl
    rw [hfree b hat] at hheld
    cases hheld
  · rintro ⟨frame, hframe⟩
    have hfound : (findFrame.outcome db).1 = .ok frame := by rw [outcome_findFrame, hframe]
    obtain ⟨hlt, hfree⟩ := free_of_findFrame hfound
    have hswept := Clock.buffers_sweep db.cache.clock 0
    rw [outcome_findFrame] at hlt hfree
    refine ⟨frame, by rwa [← Clock.length_sweep db.cache.clock 0], fun b hb => hfree b ?_⟩
    rw [← hb]
    exact PageCache.bufferAt?_congr hswept frame

/-- The sweep before a page is put in. -/
def swept (db : Database) : Database :=
  { db with cache := { db.cache with clock := db.cache.clock.evict.2 } }

theorem bufferAt?_swept (db : Database) (i : Nat) : db.swept.cache.bufferAt? i = db.cache.bufferAt? i := by
  have hbuffers : db.swept.cache.clock.buffers = db.cache.clock.buffers := Clock.buffers_sweep ..
  exact PageCache.bufferAt?_congr hbuffers i

theorem canLeave_swept : db.swept.CanLeave frame ↔ db.CanLeave frame := by
  rw [CanLeave, CanLeave, bufferAt?_swept]
  rfl

/-- The page belongs to a registered table, and the disk has it. -/
def OnDisk (db : Database) (page : PageId) : Prop :=
  ∃ f p, db.catalog.file page.table = .ok f ∧ f.readPage db.disk page = .ok (some p)

/-- A page that is not cached but can be read needs a frame: it is given if the page there can leave. -/
theorem outcome_getPage_of_onDisk (hb : db.cache.buffer? page = none) (hpage : db.OnDisk page)
    (hframe : db.cache.clock.evict.1 = some frame) :
    (db.CanLeave frame ∧ ∃ b, ((getPage page).outcome db).1 = .ok b)
      ∨ ∃ b e, db.cache.bufferAt? frame = some b ∧ b.dirty = true ∧ db.RefusedWith b e
        ∧ (getPage page).outcome db = (.error e, db.swept) := by
  obtain ⟨f, p, hf, hread⟩ := hpage
  rw [outcome_getPage, PageCache.touch_eq_none_iff.mpr hb]
  dsimp only
  rw [outcome_loadPage, hf, Fallible.follow_ok]
  simp only [hread, outcome_findFrame, hframe, Fallible.follow_ok]
  rcases writeBack_cases db.swept frame with ⟨hleave, hwrite⟩ | ⟨b, e, hb, hdirty, hrefused, hwrite⟩
  · refine .inl ⟨canLeave_swept.mp hleave, ?_⟩
    rw [swept] at hwrite
    generalize (writeBack frame).outcome _ = r at hwrite ⊢
    obtain ⟨_, db'⟩ := r
    cases hwrite
    exact ⟨_, rfl⟩
  · rw [bufferAt?_swept] at hb
    refine .inr ⟨b, e, hb, hdirty, hrefused, ?_⟩
    rw [swept] at hwrite
    rw [hwrite]
    rfl

/-- Once a page cannot leave, it is in the way of every page that is not cached, until something else happens. -/
theorem outcome_getPage_swept (hb : db.cache.buffer? page = none) (hpage : db.OnDisk page)
    (hframe : db.cache.clock.evict.1 = some frame) {victim : Buffer}
    (hvictim : db.cache.bufferAt? frame = some victim) (hdirty : victim.dirty = true)
    (hrefused : db.RefusedWith victim e) : (getPage page).outcome db.swept = (.error e, db.swept) := by
  have hagain : db.swept.cache.clock.evict = (some frame, db.swept.cache.clock) := Clock.evict_evict hframe
  have hnone : db.swept.cache.buffer? page = none := (PageCache.buffer?_sweep db.cache page).trans hb
  rcases outcome_getPage_of_onDisk hnone hpage (congrArg Prod.fst hagain) with
    ⟨hleave, -⟩ | ⟨b, e', hb', -, hrefused', hget⟩
  · exact absurd (canLeave_swept.mp hleave) (hrefused.not_canLeave hvictim hdirty)
  · rw [bufferAt?_swept, hvictim] at hb'
    cases hb'
    have hstill : db.swept.swept = db.swept := by rw [swept, congrArg Prod.snd hagain]
    rw [hget, hstill, hrefused.unique hrefused']

theorem isCached_eq_false_iff (h : db.cache.Coherent) :
    db.cache.isCached page = false ↔ db.cache.buffer? page = none := by
  rw [PageCache.isCached, Assoc.contains]
  cases hframe : db.cache.pageTable.get? page with
  | none => simp [PageCache.buffer?, hframe]
  | some frame =>
    obtain ⟨b, hb, -⟩ := PageCache.exists_buffer? h hframe
    simp [hb]

/-- A page that can be read is given, if it is cached or callers leave a frame, exactly as long as the page in the
frame that the clock picks can leave. -/
theorem getPage_given_iff (h : db.cache.Coherent) (hpage : db.OnDisk page) :
    (db.cache.isCached page = true ∨ db.Spare → ∃ b, ((getPage page).outcome db).1 = .ok b)
      ↔ db.cache.isCached page = true ∨ ∀ frame, db.cache.clock.evict.1 = some frame → db.CanLeave frame := by
  cases hb : db.cache.buffer? page with
  | some b =>
    have hcached : db.cache.isCached page = true := by
      rw [← Bool.not_eq_false, isCached_eq_false_iff h, hb]
      exact nofun
    exact ⟨fun _ => .inl hcached, fun _ _ => ⟨b, getPage_of_buffer? h hb⟩⟩
  | none =>
    rw [(isCached_eq_false_iff h).mpr hb, spare_iff h]
    simp only [Bool.false_eq_true, false_or]
    constructor
    · intro hgiven frame hframe
      obtain ⟨b, hok⟩ := hgiven ⟨frame, hframe⟩
      rcases outcome_getPage_of_onDisk hb hpage hframe with ⟨hleave, -⟩ | ⟨_, e, -, -, -, hget⟩
      · exact hleave
      · rw [hget] at hok
        cases hok
    · rintro hleave ⟨frame, hframe⟩
      rcases outcome_getPage_of_onDisk hb hpage hframe with ⟨-, hok⟩ | ⟨victim, e, hat, hdirty, hrefused, -⟩
      · exact hok
      · exact absurd (hleave frame hframe) (hrefused.not_canLeave hat hdirty)

/-- A page that can be read is refused, although callers leave a frame, only for the sake of another page, which cannot
be written. This one is in the way of every page that is not cached. -/
theorem exists_victim_of_getPage_error (h : db.cache.Coherent) (hpage : db.OnDisk page) (hspare : db.Spare)
    {db' : Database} (hget : (getPage page).outcome db = (.error e, db')) :
    (∃ victim, db.cache.buffer? victim.page.id = some victim ∧ victim.page.id ≠ page ∧ victim.isHeld = false
      ∧ victim.dirty = true ∧ db.RefusedWith victim e)
    ∧ ∀ page', db.OnDisk page' → db.cache.isCached page' = false →
      (getPage page').outcome db' = (.error e, db') := by
  have hb : db.cache.buffer? page = none := by
    by_contra hsome
    obtain ⟨b, hb⟩ := Option.ne_none_iff_exists'.mp hsome
    have hok := getPage_of_buffer? h hb
    rw [hget] at hok
    cases hok
  obtain ⟨frame, hframe⟩ := (spare_iff h).mp hspare
  rcases outcome_getPage_of_onDisk hb hpage hframe with ⟨-, b, hok⟩ | ⟨victim, e', hat, hdirty, hrefused, hget'⟩
  · rw [hget] at hok
    cases hok
  · cases hget.symm.trans hget'
    have hvictim := (PageCache.buffer?_eq_some_iff h).mpr ⟨frame, hat, rfl⟩
    have hfree : victim.isHeld = false := by
      have hfound : (findFrame.outcome db).1 = .ok frame := by rw [outcome_findFrame, hframe]
      refine (free_of_findFrame hfound).2 victim ?_
      rw [outcome_findFrame]
      exact (bufferAt?_swept db frame).trans hat
    refine ⟨⟨victim, hvictim, ?_, hfree, hdirty, hrefused⟩, fun page' hpage' hcached => ?_⟩
    · rintro rfl
      rw [hb] at hvictim
      cases hvictim
    · exact outcome_getPage_swept ((isCached_eq_false_iff h).mp hcached) hpage' hframe hat hdirty hrefused

end Database

/-! ### Every state of a session -/

namespace Session

open Database (getPage)

variable {pool : Pool} {n : Nat} {page : PageId}

/-- The states that a cache of `n` frames comes to, whatever happens to it and below it. -/
def Reached (n : Nat) (pool : Pool) : Prop :=
  ∃ (start : Database) (calls : List SessionCall), run calls ⟨{ start with cache := PageCache.ofSize n }, []⟩ = pool

theorem Reached.tended (h : Reached n pool) : pool.Tended n := by
  obtain ⟨start, calls, rfl⟩ := h
  exact tended_run (Pool.tended_ofSize n start) calls

/-- In every state a page that can be read is given, if it is cached or callers leave a frame, exactly as long as the
page in the frame that the clock picks can leave. If it is refused all the same, then for the sake of that other page,
which is in the way of every page that is not cached until something else happens. -/
theorem getPage_of_reached (h : Reached n pool) (hpage : pool.db.OnDisk page) :
    ((pool.db.cache.isCached page = true ∨ pool.db.Spare → ∃ b, ((getPage page).outcome pool.db).1 = .ok b)
      ↔ pool.db.cache.isCached page = true
        ∨ ∀ frame, pool.db.cache.clock.evict.1 = some frame → pool.db.CanLeave frame)
    ∧ ∀ e db', (getPage page).outcome pool.db = (.error e, db') → pool.db.Spare →
      (∃ victim, pool.db.cache.buffer? victim.page.id = some victim ∧ victim.page.id ≠ page
        ∧ victim.isHeld = false ∧ victim.dirty = true ∧ pool.db.RefusedWith victim e)
      ∧ ∀ page', pool.db.OnDisk page' → pool.db.cache.isCached page' = false →
        (getPage page').outcome db' = (.error e, db') :=
  ⟨Database.getPage_given_iff h.tended.coherent hpage,
    fun _ _ hget hspare => Database.exists_victim_of_getPage_error h.tended.coherent hpage hspare hget⟩

/-! ### A table that is replaced while a page of it is changed -/

/-- A file of numbers with room for one of them on a page. -/
def numbersFile (path : String) : HeapFile :=
  ⟨[path], ⟨[.int], none⟩, 5⟩

/-- Stores a number. -/
def number (path : String) (k : Int32) : SessionCall :=
  .pool (.cache (.insert ⟨0⟩ (numbersFile path).id ⟨(numbersFile path).schema, [.int k], none⟩))

/-- The first page of the numbers that stay. -/
def keptPage : PageId :=
  ⟨(numbersFile "kept.dat").id, 0⟩

/-- A number is stored, and then another file takes the name of its table. A number of another table is asked for. -/
def replaced : List SessionCall :=
  [.register (numbersFile "kept.dat") "kept" none, number "kept.dat" 1, number "kept.dat" 2, number "kept.dat" 3,
    .pool (.cache .flush), .register (numbersFile "old.dat") "table" none, number "old.dat" 7,
    .register (numbersFile "new.dat") "table" none, .pool (.cache (.getPage ⟨(numbersFile "kept.dat").id, 2⟩))]

/-- The state of a cache of two frames afterwards. -/
def replacedPool : Pool :=
  run replaced ⟨Database.ofPoolSize 2, []⟩

theorem replacedPool_reached : Reached 2 replacedPool :=
  ⟨Database.ofPoolSize 2, replaced, rfl⟩

theorem replacedPool_onDisk : replacedPool.db.OnDisk keptPage := by
  have hfile : replacedPool.db.catalog.file keptPage.table = .ok (numbersFile "kept.dat") := by decide +kernel
  have hread : ((numbersFile "kept.dat").readPage replacedPool.db.disk keptPage).toOption.join.isSome = true := by
    decide +kernel
  obtain ⟨p, hp⟩ := Option.isSome_iff_exists.mp hread
  refine ⟨_, p, hfile, ?_⟩
  generalize (numbersFile "kept.dat").readPage replacedPool.db.disk keptPage = r at hp
  rcases r with e | _ | q <;> cases hp
  rfl

theorem replacedPool_spare : replacedPool.db.Spare := by
  have hfree : 0 < replacedPool.db.cache.clock.frames.length
      ∧ (replacedPool.db.cache.bufferAt? 0).all (!·.isHeld) = true := by decide +kernel
  refine ⟨0, hfree.1, fun b hb => ?_⟩
  rw [hb] at hfree
  simpa using hfree.2

/-- The page is on the disk and one frame is enough for it, but what is answered is that another table is gone. -/
theorem getPage_replacedPool :
    ∃ db', (getPage keptPage).outcome replacedPool.db = (.error (.unknownTable (numbersFile "old.dat").id), db') := by
  have herror : ((getPage keptPage).outcome replacedPool.db).1.map (fun _ => ())
      = .error (.unknownTable (numbersFile "old.dat").id) := by decide +kernel
  generalize (getPage keptPage).outcome replacedPool.db = r at herror
  obtain ⟨e | b, db'⟩ := r
  · obtain rfl := Except.error.inj herror
    exact ⟨db', rfl⟩
  · cases herror

/-- The number whose table is gone cannot leave, and that is why. -/
theorem getPage_of_reached_replaced :
    (∃ victim, replacedPool.db.RefusedWith victim (.unknownTable (numbersFile "old.dat").id))
      ∧ ¬ ∀ frame, replacedPool.db.cache.clock.evict.1 = some frame → replacedPool.db.CanLeave frame := by
  obtain ⟨hgiven, hvictim⟩ := getPage_of_reached replacedPool_reached replacedPool_onDisk
  obtain ⟨db', hget⟩ := getPage_replacedPool
  obtain ⟨⟨victim, -, -, -, -, hrefused⟩, -⟩ := hvictim _ _ hget replacedPool_spare
  refine ⟨⟨victim, hrefused⟩, fun hleave => ?_⟩
  obtain ⟨b, hok⟩ := hgiven.mpr (.inr hleave) (.inr replacedPool_spare)
  rw [hget] at hok
  cases hok

/-- So a page that can be read is not always given when callers leave a frame. -/
theorem not_always_given :
    ¬ ∀ {n : Nat} {pool : Pool} {page : PageId}, Reached n pool → pool.db.OnDisk page → pool.db.Spare →
      ∃ b, ((getPage page).outcome pool.db).1 = .ok b := by
  intro hgiven
  obtain ⟨b, hok⟩ := hgiven replacedPool_reached replacedPool_onDisk replacedPool_spare
  obtain ⟨db', hget⟩ := getPage_replacedPool
  rw [hget] at hok
  cases hok

end Session

end RelStore
