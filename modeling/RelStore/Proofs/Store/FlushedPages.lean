/-
What is written for a transaction.

The cache remembers pages by transaction, across evictions, reloads, drops, and flushes of others.

* `Pool.Touches`, `Pool.WritesFor` — a call changes a page for a transaction, and a call has its pages written;
* `Pool.ChangedSince` — a transaction changed a page and its pages were not written since then;
* `Pool.mem_changedBy_run` — these are the pages that the cache remembers for it, after every run;
* `Database.Writes` — of some pages those that are dirty are written, and nothing else changes: no other buffer and no
  other byte of any file;
* `Pool.flushPages_writes` — so the pages of a transaction are written.

Design notes.  `ChangedSince` speaks of the calls that were made and of what they answered, not of what the cache
remembers.  A page is told to the disk by its whole image, so what is kept is told by images first
(`Database.WritesPages`) and byte by byte only at the end.
-/
import RelStore.Proofs.Store.Ledger

namespace RelStore

open Fallible (follow)

/-! ### The pages of a transaction -/

namespace Pool

variable {pool : Pool} {n : Nat} {txn : TxnId} {page : PageId}

/-- The call stores a row on the page for the transaction, or takes one away from it. -/
def Touches (pool : Pool) (txn : TxnId) (page : PageId) : PoolCall → Prop
  | .cache (.insert caller table row) =>
    caller = txn ∧ ((Database.placeRow table row).outcome pool.db).1 = .ok page
  | .cache (.delete caller row) => caller = txn ∧ ((Database.takeRow row).outcome pool.db).1 = .ok page
  | _ => False

/-- The call has the pages of the transaction written: its own, or the pages of all with success. -/
def WritesFor (pool : Pool) (txn : TxnId) : PoolCall → Prop
  | .cache (.flushPages caller) => caller = txn
  | .cache .flush => (Database.flush.outcome pool.db).1 = .ok ()
  | _ => False

/-- The transaction changed the page at some call, and its pages were not written by a later one. -/
def ChangedSince (start : Pool) (calls : List PoolCall) (txn : TxnId) (page : PageId) : Prop :=
  ∃ i call, calls[i]? = some call ∧ Touches (run (calls.take i) start) txn page call
    ∧ ∀ j later, i < j → calls[j]? = some later → ¬ WritesFor (run (calls.take j) start) txn later

/-- The calls of a longer history are those from before and the last one. -/
theorem getElem?_concat_eq_some_iff {calls : List PoolCall} {call c : PoolCall} {i : Nat} :
    (calls ++ [call])[i]? = some c ↔ calls[i]? = some c ∨ i = calls.length ∧ c = call := by
  rcases Nat.lt_trichotomy i calls.length with hlt | rfl | hgt
  · rw [List.getElem?_append_left hlt]
    exact ⟨.inl, fun h => h.resolve_right fun hlast => absurd hlast.1 (Nat.ne_of_lt hlt)⟩
  · rw [List.getElem?_concat_length, List.getElem?_eq_none (Nat.le_refl _)]
    simp [eq_comm]
  · rw [List.getElem?_eq_none (by rw [List.length_append, List.length_singleton]; omega),
      List.getElem?_eq_none (Nat.le_of_lt hgt)]
    simp [Nat.ne_of_gt hgt]

/-- With the last call a page is changed now, or it was changed before and the call does not have it written. -/
theorem changedSince_concat {start : Pool} {calls : List PoolCall} {call : PoolCall} :
    ChangedSince start (calls ++ [call]) txn page ↔ Touches (run calls start) txn page call
      ∨ ¬ WritesFor (run calls start) txn call ∧ ChangedSince start calls txn page := by
  have htake : ∀ {i c}, calls[i]? = some c → (calls ++ [call]).take i = calls.take i := fun hi =>
    List.take_append_of_le_length (Nat.le_of_lt (List.getElem?_eq_some_iff.mp hi).1)
  have hall : (calls ++ [call]).take calls.length = calls := List.take_left
  constructor
  · rintro ⟨i, c, hi, htouches, hlater⟩
    rcases getElem?_concat_eq_some_iff.mp hi with hi | ⟨rfl, rfl⟩
    · have hlt := (List.getElem?_eq_some_iff.mp hi).1
      refine .inr ⟨?_, i, c, hi, by rwa [htake hi] at htouches, fun j later hij hj => ?_⟩
      · have hlast := hlater calls.length call hlt (getElem?_concat_eq_some_iff.mpr (.inr ⟨rfl, rfl⟩))
        rwa [hall] at hlast
      · have hthen := hlater j later hij (getElem?_concat_eq_some_iff.mpr (.inl hj))
        rwa [htake hj] at hthen
    · rw [hall] at htouches
      exact .inl htouches
  · rintro (htouches | ⟨hnot, i, c, hi, htouches, hlater⟩)
    · refine ⟨calls.length, call, getElem?_concat_eq_some_iff.mpr (.inr ⟨rfl, rfl⟩), by rwa [hall],
        fun j later hj hget => ?_⟩
      rcases getElem?_concat_eq_some_iff.mp hget with hget | ⟨rfl, -⟩
      · exact absurd (List.getElem?_eq_some_iff.mp hget).1 (Nat.lt_asymm hj)
      · exact absurd hj (Nat.lt_irrefl _)
    · refine ⟨i, c, getElem?_concat_eq_some_iff.mpr (.inl hi), by rwa [htake hi], fun j later hij hj => ?_⟩
      rcases getElem?_concat_eq_some_iff.mp hj with hj | ⟨rfl, rfl⟩
      · rw [htake hj]
        exact hlater j later hij hj
      · rwa [hall]

/-! ### What the cache remembers -/

/-- A change that succeeds is remembered, and no other page. -/
theorem mem_changedBy_change {db : Database} {op : DbM StorageError PageId} {caller : TxnId}
    (hquiet : db.Quiet (op.outcome db).2) :
    page ∈ (follow (op.outcome db) fun page db => ((.ok () : Except StorageError Unit),
        { db with cache := db.cache.markChanged caller page })).2.cache.changedBy txn
      ↔ (caller = txn ∧ (op.outcome db).1 = .ok page) ∨ page ∈ db.cache.changedBy txn := by
  have hbefore := Ledger.changedBy_congr hquiet.settles.changed txn
  generalize op.outcome db = r at hbefore ⊢
  obtain ⟨e | changed, db'⟩ := r
  · show page ∈ db'.cache.changedBy txn ↔ _
    rw [hbefore]
    simp
  · show page ∈ (db'.cache.markChanged caller changed).changedBy txn ↔ _
    rw [PageCache.mem_changedBy_markChanged, hbefore]
    simp [or_comm, eq_comm]

/-- After a call the cache remembers the page that it changed, and those from before that it did not have written. -/
theorem mem_changedBy_step (h : pool.Tended n) (call : PoolCall) :
    page ∈ (pool.step call).db.cache.changedBy txn
      ↔ Touches pool txn page call ∨ ¬ WritesFor pool txn call ∧ page ∈ pool.db.cache.changedBy txn := by
  have hco := h.coherent
  -- most calls leave alone what is remembered
  have hquiet : ∀ {db : Database}, pool.db.Settles db →
      (page ∈ db.cache.changedBy txn ↔ False ∨ ¬ False ∧ page ∈ pool.db.cache.changedBy txn) := fun hsettles => by
    rw [Ledger.changedBy_congr hsettles.changed]
    simp
  cases call with
  | keep page => exact hquiet (Ledger.settles_keep (s := ⟨pool, fun _ => []⟩) h page)
  | release hd => exact hquiet (Ledger.settles_release (s := ⟨pool, fun _ => []⟩) h hd)
  | discard page => exact hquiet (Database.settles_discardPage hco page)
  | cache call =>
    have hdb : (pool.step (.cache call)).db = (call.run.outcome pool.db).2 := rfl
    rw [hdb]
    cases call with
    | getPage page =>
      rw [CacheCall.run, Fallible.snd_outcome_map]
      exact hquiet (Database.settles_getPage hco page)
    | insert caller table row =>
      rw [CacheCall.run, Fallible.snd_outcome_map, Database.outcome_insertRow_placeRow,
        mem_changedBy_change (Database.quiet_placeRow hco table row)]
      simp [Touches, WritesFor]
    | delete caller row =>
      rw [CacheCall.run, Fallible.snd_outcome_map, Database.outcome_deleteRow_takeRow,
        mem_changedBy_change (Database.quiet_takeRow hco row)]
      simp [Touches, WritesFor]
    | flush =>
      have hsettles := Database.settles_writePages hco pool.db.cache.pageTable.keys
      rw [CacheCall.run, Fallible.snd_outcome_map]
      simp only [Touches, WritesFor, Database.outcome_flush]
      generalize (Database.writePages pool.db.cache.pageTable.keys).outcome pool.db = r at hsettles ⊢
      obtain ⟨e | _, db⟩ := r
      · simpa using hquiet hsettles
      · show page ∈ ({ db.cache with changed := {} } : PageCache).changedBy txn ↔ _
        simp [PageCache.changedBy, Assoc.get?]
    | flushPages caller =>
      have hforget := (Database.spares_forget hco (pool.db.cache.changed.erase caller)).coherent
      have hsettles := Database.settles_writePages hforget (pool.db.cache.changedBy caller)
      rw [CacheCall.run, Fallible.snd_outcome_map, Database.outcome_flushPages,
        Ledger.mem_changedBy_of_erase hsettles.changed]
      simp [Touches, WritesFor, eq_comm]

/-- What the cache remembers of a transaction is what it changed since its pages were last written. -/
theorem mem_changedBy_run {start : Database} (hcache : start.cache = PageCache.ofSize n) (calls : List PoolCall) :
    page ∈ (run calls ⟨start, []⟩).db.cache.changedBy txn ↔ ChangedSince ⟨start, []⟩ calls txn page := by
  have htended : (⟨start, []⟩ : Pool).Tended n := by
    have hfresh := tended_ofSize n start
    rwa [← hcache] at hfresh
  induction calls using List.reverseRecOn with
  | nil =>
    constructor
    · intro hmem
      rw [show (run [] ⟨start, []⟩).db.cache = PageCache.ofSize n from hcache] at hmem
      cases hmem
    · rintro ⟨i, call, hcall, -⟩
      cases hcall
  | append_singleton calls call ih =>
    rw [run, List.foldl_append, changedSince_concat]
    exact (mem_changedBy_step (tended_run htended calls) call).trans (or_congr_right (and_congr_right fun _ => ih))

end Pool

/-! ### What is written -/

/-- A byte of a file is a byte of the image of its page. -/
theorem HeapFile.getElem?_contents {f : HeapFile} (hpos : 0 < f.pageSize) (d : Disk) (i : Nat) :
    (d.contents f.path)[i]? = (f.image d (i / f.pageSize))[i % f.pageSize]? := by
  rw [HeapFile.image_eq, List.getElem?_take, if_pos (Nat.mod_lt i hpos), List.getElem?_drop, Nat.div_add_mod]

namespace Database

variable {db db' db'' : Database} {f : HeapFile} {page : PageId} {pages pages' : List PageId} {b : Buffer}
  {frame : Nat} {due : PageId → Prop}

/-- Of the given pages those that are dirty are written.  All others keep their image, no file gets longer, and files of
no table stay as they are. -/
structure WritesPages (pages : List PageId) (db db' : Database) : Prop where
  sound : db'.Sound
  catalog : db'.catalog = db.catalog
  changed : db'.cache.changed = db.cache.changed
  buffer : ∀ page, db'.cache.buffer? page
    = if page ∈ pages then (db.cache.buffer? page).map cleaned else db.cache.buffer? page
  image : ∀ {f}, db.catalog.file f.id = .ok f → ∀ {k b}, db.cache.buffer? ⟨f.id, k⟩ = some b → b.dirty = true →
    ⟨f.id, k⟩ ∈ pages → f.image db'.disk k = b.page.bytes
  kept : ∀ {f}, db.catalog.file f.id = .ok f → ∀ {k}, ¬ (db.Dirty ⟨f.id, k⟩ ∧ ⟨f.id, k⟩ ∈ pages) →
    f.image db'.disk k = f.image db.disk k
  length : ∀ {f}, db.catalog.file f.id = .ok f →
    (db'.disk.contents f.path).length = (db.disk.contents f.path).length
  others : ∀ {path}, (∀ f, db.catalog.file f.id = .ok f → f.path ≠ path) →
    db'.disk.contents path = db.disk.contents path

theorem WritesPages.of_clean (h : db.Sound) (hclean : ∀ page ∈ pages, ¬ db.Dirty page) : WritesPages pages db db := by
  refine ⟨h, rfl, rfl, fun page => ?_, fun {f} _ k b hb hdirty hmem => ?_, fun _ _ _ => rfl, fun _ => rfl, fun _ => rfl⟩
  · split
    · next hmem =>
      cases hb : db.cache.buffer? page with
      | none => rfl
      | some b =>
        have hnot : b.dirty = false := Bool.eq_false_iff.mpr fun hdirty => hclean page hmem ⟨b, hb, hdirty⟩
        rw [Option.map_some, cleaned_eq_self hnot]
    · rfl
  · exact absurd ⟨b, hb, hdirty⟩ (hclean _ hmem)

/-- The page of a dirty buffer is written over its image, and over no other one. -/
theorem Sound.writesPages_of_writePage (h : db.Sound) (hb : db.cache.bufferAt? frame = some b) (hdirty : b.dirty = true)
    (hf : db.catalog.file b.page.id.table = .ok f) :
    ∃ d, f.writePage db.disk b.page = .ok d
      ∧ WritesPages [b.page.id] db { db with disk := d, cache := db.cache.modifyAt frame cleaned } := by
  have hbuffer : db.cache.buffer? b.page.id = some b := (PageCache.buffer?_eq_some_iff h.coherent).mpr ⟨frame, hb, rfl⟩
  obtain ⟨f', hf', hbacked⟩ := h.backed hbuffer
  rw [hf] at hf'
  cases hf'
  have hid : f.id = b.page.id.table := h.proper.id_of_file hf
  have hpage : b.page.id = ⟨f.id, b.page.id.number⟩ := by rw [hid]
  rw [← hid] at hf
  have hpos := h.proper.pageSize_pos hf
  obtain ⟨-, hinside⟩ := h.place_le hf (hpage ▸ hbuffer)
  have hplace : f.pageSize * b.page.id.number ≤ (db.disk.contents f.path).length := by omega
  obtain ⟨d, hwrite, hown, hothers⟩ := HeapFile.writePage_eq hbacked.size hplace
  obtain ⟨d', hwrite', hwritten⟩ := h.writtenBack_of_writePage hb (hid ▸ hf)
  obtain rfl : d = d' := Except.ok.inj (hwrite.symm.trans hwrite')
  refine ⟨d, hwrite, hwritten.sound, rfl, PageCache.changed_modifyFrame .., fun page => ?_, ?_, ?_, ?_, ?_⟩
  · show (db.cache.modifyAt frame cleaned).buffer? page = _
    rw [PageCache.buffer?_modifyAt h.coherent hb]
    by_cases heq : b.page.id = page
    · rw [if_pos heq, if_pos (by rw [heq]; exact List.mem_singleton_self page), ← heq, hbuffer]
      rfl
    · rw [if_neg heq, if_neg fun hmem => heq (List.mem_singleton.mp hmem).symm]
  · intro g hg k b' hb' _ hmem
    rw [List.mem_singleton] at hmem
    rw [hmem, hbuffer] at hb'
    cases hb'
    have hgf : f.id = g.id := hid.trans (congrArg PageId.table hmem).symm
    obtain rfl : g = f := Except.ok.inj (hg.symm.trans (hgf ▸ hf))
    rw [show k = b.page.id.number from congrArg PageId.number hmem]
    exact HeapFile.image_of_writePage hbacked.size hplace hown
  · intro g hg k hnot
    by_cases hgf : g = f
    · subst hgf
      refine HeapFile.image_of_writePage_of_ne hpos hbacked.size hplace hown fun hk => hnot ?_
      rw [hk, ← hpage]
      exact ⟨⟨b, hbuffer, hdirty⟩, List.mem_singleton_self _⟩
    · exact HeapFile.image_congr (hothers _ (path_ne_of_registered hf hg hgf)) k
  · intro g hg
    by_cases hgf : g = f
    · subst hgf
      rw [HeapFile.length_of_writePage hbacked.size hplace hown, Nat.max_eq_left hinside]
    · rw [hothers _ (path_ne_of_registered hf hg hgf)]
  · exact fun {path} hpath => hothers path (hpath f hf).symm

/-- Some pages are written, then others. -/
theorem WritesPages.append (h : WritesPages pages db db') (h' : WritesPages pages' db' db'') :
    WritesPages (pages ++ pages') db db'' := by
  have hregistered : ∀ {f : HeapFile}, db.catalog.file f.id = .ok f → db'.catalog.file f.id = .ok f := fun hf => by
    rw [h.catalog]
    exact hf
  have hdirty : ∀ {page}, db'.Dirty page ↔ db.Dirty page ∧ page ∉ pages := fun {page} => by
    simp only [Dirty, h.buffer]
    by_cases hmem : page ∈ pages
    · simp [hmem, cleaned]
    · simp [hmem]
  refine ⟨h'.sound, h'.catalog.trans h.catalog, h'.changed.trans h.changed, fun page => ?_, ?_, ?_, ?_, ?_⟩
  · rw [h'.buffer, h.buffer]
    by_cases hmem : page ∈ pages <;> by_cases hmem' : page ∈ pages' <;>
      simp only [hmem, hmem', List.mem_append, if_true, if_false, or_self, or_true, true_or, Option.map_map]
    -- a buffer that is written twice is clean
    rfl
  · intro f hf k b hb hd hmem
    by_cases hfirst : ⟨f.id, k⟩ ∈ pages
    -- written first, and clean from then on
    · rw [h'.kept (hregistered hf) fun hboth => (hdirty.mp hboth.1).2 hfirst]
      exact h.image hf hb hd hfirst
    · refine h'.image (hregistered hf) ?_ hd ((List.mem_append.mp hmem).resolve_left hfirst)
      rw [h.buffer, if_neg hfirst]
      exact hb
  · intro f hf k hnot
    rw [h'.kept (hregistered hf), h.kept hf]
    · exact fun hboth => hnot ⟨hboth.1, List.mem_append_left _ hboth.2⟩
    · exact fun hboth => hnot ⟨(hdirty.mp hboth.1).1, List.mem_append_right _ hboth.2⟩
  · exact fun hf => (h'.length (hregistered hf)).trans (h.length hf)
  · exact fun hpath => (h'.others fun f hf => hpath f (h.catalog ▸ hf)).trans (h.others hpath)

/-- A page that is not dirty needs no writing. -/
theorem outcome_writePages_cons_of_clean (hclean : ¬ db.Dirty page) (pages : List PageId) :
    (Database.writePages (page :: pages)).outcome db = (Database.writePages pages).outcome db := by
  rw [outcome_writePages_cons]
  cases hframe : db.cache.pageTable.get? page with
  | none => rfl
  | some frame =>
    have hbuffer : db.cache.buffer? page = db.cache.bufferAt? frame := by rw [PageCache.buffer?, hframe]
    simp only [outcome_writeBack]
    cases hb : db.cache.bufferAt? frame with
    | none => rfl
    | some b => simp only [if_neg fun hdirty => hclean ⟨b, hbuffer.trans hb, hdirty⟩, Fallible.follow_ok]

/-- Writing pages is never refused, and writes those that are dirty. -/
theorem Sound.exists_writePages (h : db.Sound) (pages : List PageId) :
    ∃ db', (Database.writePages pages).outcome db = (.ok (), db') ∧ WritesPages pages db db' := by
  induction pages generalizing db with
  | nil => exact ⟨db, rfl, .of_clean h nofun⟩
  | cons page pages ih =>
    by_cases hdirty : db.Dirty page
    · obtain ⟨b, hb, hdirty⟩ := hdirty
      obtain ⟨frame, hat, rfl⟩ := (PageCache.buffer?_eq_some_iff h.coherent).mp hb
      obtain ⟨f, hf, -⟩ := h.backed hb
      obtain ⟨d, hwrite, hwrites⟩ := h.writesPages_of_writePage hat hdirty hf
      obtain ⟨db', hrest, hwrites'⟩ := ih hwrites.sound
      refine ⟨db', ?_, hwrites.append hwrites'⟩
      rw [outcome_writePages_cons, h.coherent.frameOf hat]
      simp only [outcome_writeBack, hat, if_pos hdirty, hf, Fallible.follow_ok, hwrite]
      exact hrest
    · obtain ⟨db', hrest, hwrites⟩ := ih h
      have hclean : WritesPages [page] db db :=
        .of_clean h fun q hq => (List.mem_singleton.mp hq).symm ▸ hdirty
      exact ⟨db', (outcome_writePages_cons_of_clean hdirty pages).trans hrest, hclean.append hwrites⟩

/-- Of the pages that are due those that are dirty are written, and nothing else changes. -/
structure Writes (db db' : Database) (due : PageId → Prop) : Prop where
  /-- A page that is due and dirty becomes clean, and the disk has its bytes. -/
  written : ∀ {page b}, db.cache.buffer? page = some b → b.dirty = true → due page →
    db'.cache.buffer? page = some { b with dirty := false }
      ∧ ∃ f, db.catalog.file page.table = .ok f ∧ f.image db'.disk page.number = b.page.bytes
  /-- Every other buffer is as it was, and nothing comes into the cache or leaves it. -/
  buffers : ∀ {page}, ¬ (db.Dirty page ∧ due page) → db'.cache.buffer? page = db.cache.buffer? page
  /-- Every byte of a table that is not on a written page is as it was. -/
  bytes : ∀ {f}, db.catalog.file f.id = .ok f → ∀ i,
    ¬ (db.Dirty ⟨f.id, i / f.pageSize⟩ ∧ due ⟨f.id, i / f.pageSize⟩) →
      (db'.disk.contents f.path)[i]? = (db.disk.contents f.path)[i]?
  length : ∀ {f}, db.catalog.file f.id = .ok f →
    (db'.disk.contents f.path).length = (db.disk.contents f.path).length
  /-- So are the files of no table. -/
  others : ∀ {path}, (∀ f, db.catalog.file f.id = .ok f → f.path ≠ path) →
    db'.disk.contents path = db.disk.contents path
  catalog : db'.catalog = db.catalog

theorem WritesPages.writes (h : WritesPages pages db db') (hsound : db.Sound) (hdue : ∀ page, page ∈ pages ↔ due page) :
    db.Writes db' due where
  written {page b} hb hdirty hpage := by
    obtain ⟨f, hf, -⟩ := hsound.backed hb
    obtain ⟨table, k⟩ := page
    obtain rfl : f.id = table := hsound.proper.id_of_file hf
    have hmem := (hdue _).mpr hpage
    refine ⟨?_, f, hf, h.image hf hb hdirty hmem⟩
    rw [h.buffer, if_pos hmem, hb]
    rfl
  buffers {page} hnot := by
    rw [h.buffer]
    split
    · next hmem =>
      cases hb : db.cache.buffer? page with
      | none => rfl
      | some b =>
        have hclean : b.dirty = false :=
          Bool.eq_false_iff.mpr fun hdirty => hnot ⟨⟨b, hb, hdirty⟩, (hdue page).mp hmem⟩
        rw [Option.map_some, cleaned_eq_self hclean]
    · rfl
  bytes {f} hf i hnot := by
    have hpos := hsound.proper.pageSize_pos hf
    rw [HeapFile.getElem?_contents hpos, HeapFile.getElem?_contents hpos, h.kept hf]
    exact fun hboth => hnot ⟨hboth.1, (hdue _).mp hboth.2⟩
  length hf := h.length hf
  others hpath := h.others hpath
  catalog := h.catalog

end Database

namespace Pool

variable {n : Nat} {start : Database} {calls : List PoolCall}

/-- In every state that callers can bring a cache to, the pages of a transaction can be written.  Written are the dirty
pages that it changed since its pages were last written, and nothing else changes: the transaction is forgotten, and
what is remembered of all others stays. -/
theorem flushPages_writes (hcache : start.cache = PageCache.ofSize n) (hproper : start.catalog.Proper)
    (hcalls : ∀ call ∈ calls, call.Proper) (txn : TxnId) :
    ∃ db', (Database.flushPages txn).outcome (run calls ⟨start, []⟩).db = (.ok (), db')
      ∧ (run calls ⟨start, []⟩).db.Writes db' (ChangedSince ⟨start, []⟩ calls txn)
      ∧ db'.cache.changedBy txn = []
      ∧ ∀ other, other ≠ txn → db'.cache.changedBy other = (run calls ⟨start, []⟩).db.cache.changedBy other := by
  have hsound := (sound_run (sound_ofSize hcache hproper) hcalls).1.sound
  set db := (run calls ⟨start, []⟩).db with hdb
  obtain ⟨hforget, -, -⟩ := hsound.forget (db.cache.changed.erase txn)
  obtain ⟨db', hwrite, hwrites⟩ := hforget.exists_writePages (db.cache.changedBy txn)
  have hremembered : ∀ other, db'.cache.changedBy other = if txn = other then [] else db.cache.changedBy other :=
    fun other => (Ledger.changedBy_congr hwrites.changed other).trans (PageCache.changedBy_erase ..)
  refine ⟨db', (Database.outcome_flushPages txn db).trans hwrite, ?_, ?_, fun other hne => ?_⟩
  -- the buffers and the disk are the same before the transaction is forgotten
  · have hall := hwrites.writes hforget fun page => mem_changedBy_run hcache calls
    exact ⟨hall.written, hall.buffers, hall.bytes, hall.length, hall.others, hall.catalog⟩
  · rw [hremembered, if_pos rfl]
  · rw [hremembered, if_neg (Ne.symm hne)]

/-- Three digits fill a page for one transaction, and another one stores a digit on the next page. -/
def fourDigits : List PoolCall :=
  [digit 1, digit 2, digit 3, .cache (.insert ⟨1⟩ digitsFile.id ⟨digitsFile.schema, [.int 4], none⟩)]

/-- The page of the other transaction is written, and the first page is as dirty as it was. -/
theorem flushPages_writes_fourDigits :
    ∃ db', (Database.flushPages ⟨1⟩).outcome (run fourDigits ⟨digits 2, []⟩).db = (.ok (), db')
      ∧ ¬ db'.Dirty ⟨digitsFile.id, 1⟩ ∧ db'.Dirty ⟨digitsFile.id, 0⟩ := by
  have hcalls : ∀ call ∈ fourDigits, call.Proper := by decide
  obtain ⟨db', hflush, hwrites, -⟩ := flushPages_writes rfl (digits_proper 2) hcalls ⟨1⟩
  have hchanged : ∀ page, page ∈ (run fourDigits ⟨digits 2, []⟩).db.cache.changedBy ⟨1⟩
      ↔ ChangedSince ⟨digits 2, []⟩ fourDigits ⟨1⟩ page := fun page => mem_changedBy_run rfl fourDigits
  have hdirty : ∀ k < 2, (run fourDigits ⟨digits 2, []⟩).db.Dirty ⟨digitsFile.id, k⟩ := fun k hk => by
    have hmarks : ∀ k < 2,
        ((run fourDigits ⟨digits 2, []⟩).db.cache.buffer? ⟨digitsFile.id, k⟩).any (·.dirty) = true := by decide +kernel
    have hmark := hmarks k hk
    rwa [Option.any_eq_true] at hmark
  refine ⟨db', hflush, ?_, ?_⟩
  · obtain ⟨b, hb, hmark⟩ := hdirty 1 (by decide)
    obtain ⟨hcleaned, -⟩ := hwrites.written hb hmark ((hchanged _).mp (by decide +kernel))
    rintro ⟨b', hb', hd⟩
    rw [hcleaned] at hb'
    cases hb'
    cases hd
  · have hkept : ⟨digitsFile.id, 0⟩ ∉ (run fourDigits ⟨digits 2, []⟩).db.cache.changedBy ⟨1⟩ := by decide +kernel
    rw [Database.Dirty, hwrites.buffers fun hboth => hkept ((hchanged _).mpr hboth.2)]
    exact hdirty 0 (by decide)

end Pool

end RelStore
