/-
Insertions, deletions and flushes, as the store shows them.

* `Database.Sound.findRoom`, `Database.Sound.roomFor` — the page that a row goes to is the one that
  `TableContents.room` names, appended if it is not there;
* `Database.Sound.insertRow`, `Database.Sound.deleteRow` — what the operations do is what `Store.insertRow` and
  `Store.deleteRow` do, on a store whose long texts may have been cut while pages were loaded;
* `Database.Sound.flush`, `Database.Sound.flushPages` — nothing shows.

Design notes.  The cache may run out of frames only when callers hold buffers, so every statement here has a case
`¬ Idle` beside what the store tells.
-/
import RelStore.Proofs.Store.Loading

namespace RelStore

open Page (Cells cut)
open Fallible (follow)

namespace TableContents

theorem CutTo.drop {a b : TableContents} (h : a.CutTo b) (n : Nat) : CutTo (a.drop n) (b.drop n) := by
  refine ⟨by rw [List.length_drop, List.length_drop, h.1], fun k => ?_⟩
  rw [List.getElem?_drop, List.getElem?_drop]
  exact h.2 (n + k)

theorem room_le_length {pages : TableContents} {n : Nat} (h : room pages = .ok n) :
    n ≤ pages.length := by
  rcases (room_eq_ok_iff.mp h).2 with rfl | ⟨cells, hc, -⟩
  · exact Nat.le_refl _
  · exact Nat.le_of_lt (List.getElem?_eq_some_iff.mp hc).1

/-- An appended page has nothing to cut. -/
theorem CutTo.of_grown {slots n : Nat} {a b : TableContents} (hn : n ≤ a.length)
    (h : CutTo (grown slots n a) b) : ∃ a', a.CutTo a' ∧ b = grown slots n a' := by
  by_cases hlt : n < a.length
  · rw [grown_of_lt hlt] at h
    exact ⟨b, h, (grown_of_lt (by rw [h.1]; exact hlt)).symm⟩
  · obtain rfl : n = a.length := by omega
    rw [grown_of_le (Nat.le_refl _)] at h
    -- the last page is empty, so the cut is one of the pages before it
    have hlen : (b.take a.length).length = a.length := by
      have := h.1
      rw [List.length_append, List.length_singleton] at this
      rw [List.length_take, this]
      omega
    refine ⟨b.take a.length, ⟨hlen, fun k => ?_⟩, ?_⟩
    · rw [List.getElem?_take]
      split
      · next hk =>
        have := h.2 k
        rwa [List.getElem?_append_left hk] at this
      · next hk =>
        rw [List.getElem?_eq_none (by omega)]
        exact .inl rfl
    · rw [grown_of_le (by omega)]
      have hlast : b[a.length]? = some (.ok (List.replicate slots none)) := by
        have hcut : cut (List.replicate slots none) = List.replicate slots none := by
          simp only [cut, List.map_replicate, Option.map_none]
        have := h.2 a.length
        rw [List.getElem?_concat_length, Option.map_some, Except.map, hcut, or_self] at this
        exact this
      have hb : b.length = a.length + 1 := by
        rw [h.1, List.length_append, List.length_singleton]
      have htake := List.take_add_one (l := b) (i := a.length)
      rwa [← hb, List.take_length, hlast] at htake

/-- Where the next row goes there is an empty cell. -/
theorem none_mem_of_room {slots n : Nat} {pages : TableContents} (hslots : slots ≠ 0)
    (h : room pages = .ok n) :
    ∃ cells, (grown slots n pages)[n]? = some (.ok cells) ∧ none ∈ cells := by
  rcases (room_eq_ok_iff.mp h).2 with rfl | ⟨cells, hcells, hmem⟩
  · refine ⟨List.replicate slots none, ?_, List.mem_replicate.mpr ⟨hslots, rfl⟩⟩
    rw [grown_of_le (Nat.le_refl _), List.getElem?_concat_length]
  · rw [grown_of_lt (List.getElem?_eq_some_iff.mp hcells).1]
    exact ⟨cells, hcells, hmem⟩

end TableContents

/-- Pages of a store are cut behind the growth of a table as they are before it. -/
theorem Store.CutTo.of_grown {slots n : Nat} {table : TableId} {s s' : Store} (hn : n ≤ (s table).length)
    (h : (s.put table (TableContents.grown slots n (s table))).CutTo s') :
    ∃ t, s.CutTo t ∧ s' = t.put table (TableContents.grown slots n (t table)) := by
  have htable := h table
  rw [put_self] at htable
  obtain ⟨a, ha, hs'⟩ := htable.of_grown hn
  refine ⟨s'.put table a, fun id => ?_, ?_⟩
  · by_cases heq : id = table
    · subst heq
      rwa [put_self]
    · have hid := h id
      rwa [put_of_ne _ heq, ← put_of_ne s' heq a] at hid
  · funext id
    by_cases heq : id = table
    · subst heq
      rw [put_self, put_self, hs']
    · rw [put_of_ne _ heq, put_of_ne _ heq]

namespace Database

open TableContents (room grown)

variable {db db' : Database} {f : HeapFile} {page : PageId} {p : Page} {b : Buffer} {n : Nat}

theorem drop_contents (h : n < f.pageCount db.disk) :
    (db.contents f).drop n = db.pageCells f n :: (db.contents f).drop (n + 1) := by
  have hlt : n < (db.contents f).length := by rw [length_contents]; exact h
  rw [List.drop_eq_getElem_cons hlt]
  congr 1
  have hget := contents_getElem? db f n
  rw [if_pos h, List.getElem?_eq_getElem hlt] at hget
  exact Option.some.inj hget

theorem CutsTo.contents (h : db.CutsTo db') (hproper : db.catalog.Proper)
    (hf : db.catalog.file f.id = .ok f) : (db.contents f).CutTo (db'.contents f) := by
  have hstore := h.store hproper f.id
  rwa [store_eq hf, store_eq (h.registered hf)] at hstore

/-! ### Room for a row -/

theorem outcome_findRoom_succ (table : TableId) (first count : Nat) (db : Database) :
    (findRoom table first (count + 1)).outcome db =
      follow ((Database.getPage ⟨table, first⟩).outcome db) fun b db =>
        if 0 < b.page.emptySlots then (.ok (some ⟨table, first⟩), db)
        else (findRoom table (first + 1) count).outcome db := by
  simp only [findRoom, Fallible.outcome_bind, Fallible.outcome_ite, Fallible.outcome_pure]

/-- The search for room finds what the store tells. -/
theorem Sound.findRoom {count first : Nat} (h : db.Sound) (hf : db.catalog.file f.id = .ok f)
    (hcount : first + count = f.pageCount db.disk) :
    ∃ r db', (Database.findRoom f.id first count).outcome db = (r, db') ∧ db'.Sound ∧ db.Keeps db'
      ∧ db.CutsTo db'
      ∧ (r = (room ((db.contents f).drop first)).map
            (fun k => if k < count then some ⟨f.id, first + k⟩ else none)
          ∨ r = .error .noFreeBuffer ∧ ¬ db.Idle) := by
  -- on the number of pages left to look at; each of them may evict another one, so the database changes along
  induction count generalizing db first with
  | zero =>
    have hdrop : (db.contents f).drop first = [] :=
      List.drop_eq_nil_of_le (by rw [length_contents]; omega)
    refine ⟨_, _, rfl, h, Keeps.refl db, CutsTo.of_buffer? rfl rfl fun _ => rfl, .inl ?_⟩
    rw [hdrop]
    rfl
  | succ count ih =>
    obtain ⟨r, db₁, hget, hsound, hkeeps, hcuts, hanswer⟩ := h.getPage ⟨f.id, first⟩
    rw [outcome_findRoom_succ, hget, drop_contents (by omega)]
    have hpage := page_store h hf first
    cases hanswer with
    | found hb hcells =>
      next b =>
      rw [hpage] at hcells
      rw [hcells, TableContents.room_cons_ok, Fallible.follow_ok]
      by_cases hempty : 0 < b.page.emptySlots
      · rw [if_pos hempty, if_pos (b.page.emptySlots_pos_iff.mp hempty)]
        exact ⟨_, _, rfl, hsound, hkeeps, hcuts, .inl rfl⟩
      · rw [if_neg hempty, if_neg (mt b.page.emptySlots_pos_iff.mpr hempty)]
        obtain ⟨r, db₂, hrest, hsound₂, hkeeps₂, hcuts₂, hr⟩ := ih hsound
          (hcuts.registered hf)
          (show first + 1 + count = f.pageCount db₁.disk by rw [hcuts.count hf]; omega)
        refine ⟨r, db₂, hrest, hsound₂, hkeeps.trans hkeeps₂, hcuts.trans hcuts₂, ?_⟩
        -- loading the page may have cut others, which gives them no room
        rw [(hcuts.contents h.proper hf).drop (first + 1) |>.room_eq] at hr
        rcases hr with rfl | ⟨rfl, hidle⟩
        · left
          cases room ((db.contents f).drop (first + 1)) with
          | error e => rfl
          | ok k =>
            simp only [Except.map, Nat.add_lt_add_iff_right, Nat.add_assoc, Nat.add_comm 1 k]
        · exact .inr ⟨rfl, fun hi => hidle (hi.of_keeps hkeeps)⟩
    | refused he =>
      next e =>
      rw [hpage] at he
      rw [he, TableContents.room_cons_error]
      exact ⟨_, _, rfl, hsound, hkeeps, hcuts, .inl rfl⟩
    | full hfull =>
      exact ⟨_, _, rfl, hsound, hkeeps, hcuts, .inr ⟨rfl, fun hi => hi.not_full h hfull⟩⟩

theorem outcome_roomFor (f : HeapFile) (db : Database) :
    (roomFor f).outcome db =
      follow ((Database.findRoom f.id 0 (f.pageCount db.disk)).outcome db) fun found db₁ =>
        match found with
        | some page => (.ok page, db₁)
        | none =>
          follow (Page.empty ⟨f.id, f.pageCount db.disk⟩ f.schema f.pageSize, db₁) fun p db₁ =>
            follow (f.writePage db₁.disk p, db₁) fun d db₁ =>
              (.ok ⟨f.id, f.pageCount db.disk⟩, { db₁ with disk := d }) := by
  simp only [roomFor, writePage, Fallible.outcome_bind, Fallible.outcome_get, Fallible.follow_ok]
  congr 1
  funext found db₁
  cases found with
  | some page => rfl
  | none =>
    simp only [Fallible.outcome_bind, Fallible.outcome_ofExcept, Fallible.outcome_get,
      Fallible.follow_ok, Fallible.outcome_modify, Fallible.outcome_pure]
    cases Page.empty ⟨f.id, f.pageCount db.disk⟩ f.schema f.pageSize with
    | error e => rfl
    | ok p =>
      simp only [Fallible.follow_ok]
      cases f.writePage db₁.disk p <;> rfl

/-- Where all pages of a file can be read, the file is as long as its pages. -/
theorem Sound.place_le_of_room (h : db.Sound) (hf : db.catalog.file f.id = .ok f)
    (hroom : room (db.contents f) = .ok (f.pageCount db.disk)) :
    f.pageSize * f.pageCount db.disk ≤ (db.disk.contents f.path).length := by
  cases hcount : f.pageCount db.disk with
  | zero =>
    rw [Nat.mul_zero]
    exact Nat.zero_le _
  | succ k =>
    obtain ⟨cells, hcells, -⟩ := (TableContents.room_eq_ok_iff.mp hroom).1 k (by omega)
    rw [contents_getElem?, if_pos (by omega)] at hcells
    rw [Nat.mul_succ]
    exact (h.place_le_of_pageCells hf (Option.some.inj hcells)).2

/-- An empty page right behind the file shows as one more page. -/
theorem Sound.append (h : db.Sound) (hf : db.catalog.file f.id = .ok f)
    (hp : Page.empty ⟨f.id, f.pageCount db.disk⟩ f.schema f.pageSize = .ok p)
    (hplace : f.pageSize * f.pageCount db.disk ≤ (db.disk.contents f.path).length) :
    ∃ d, f.writePage db.disk p = .ok d ∧ ({ db with disk := d } : Database).Sound
      ∧ ({ db with disk := d } : Database).store = db.store.put f.id
          (db.store f.id ++ [.ok (List.replicate (slotCount f.schema f.pageSize) none)]) := by
  obtain ⟨hw, hid, hschema, hsize, hcut⟩ := Page.wellFormed_of_decode hp
  rw [Page.emptyBytes, SparseBytes.toList_zeros, List.length_replicate] at hsize
  have hcells : p.cells = List.replicate (slotCount f.schema f.pageSize) none := by
    obtain ⟨p', hp', hcells⟩ := Page.exists_empty ⟨f.id, f.pageCount db.disk⟩ f.schema f.pageSize
    rw [hp] at hp'
    cases hp'
    exact hcells
  obtain ⟨d, hwrite, hread, hcount, hother⟩ := exists_writePage h.proper hf hw (by rw [hid]) hschema
    hsize (by rw [hid]; exact hplace)
  rw [hid] at hread hcount
  -- no page behind the file is cached
  have hnew : ∀ {b}, db.cache.buffer? ⟨f.id, f.pageCount db.disk⟩ ≠ some b := by
    intro b hb
    have := (h.place_le hf hb).1
    omega
  refine ⟨d, hwrite, ⟨h.coherent, h.proper, ?_⟩, ?_⟩
  · intro page b hb
    obtain ⟨table, m⟩ := page
    obtain ⟨g, hg, hbacked⟩ := h.backed hb
    obtain rfl : g.id = table := h.proper.id_of_file hg
    refine ⟨g, hg, hbacked.of_readPage ?_⟩
    rw [PageCache.id_of_buffer? h.coherent hb]
    refine (hother hg).2 m fun heq => hnew (b := b) ?_
    rw [← hid, ← heq]
    exact hb
  · let db' : Database := { db with disk := d }
    have hcatalog : db'.catalog = db.catalog := rfl
    refine store_eq_append hcatalog h.proper hf (by rw [hcount, Nat.max_eq_right (Nat.le_succ _)]) ?_
      (fun hg => (hother hg).1) fun {g m} hg hne => ?_
    · have hnone : db'.cache.buffer? ⟨f.id, f.pageCount db.disk⟩ = none :=
        Option.eq_none_iff_forall_ne_some.mpr fun b hb => hnew hb
      rw [pageCells_of_buffer?_eq_none hnone]
      refine diskCells_eq_ok_iff.mpr ⟨p.stored, hread, ?_⟩
      rw [Page.cells_stored, hcut, hcells]
    · rw [pageCells, pageCells, diskCells_congr ((hother hg).2 m (by rw [hid]; exact hne))]

/-- The page for a row is the one that the store names; a new one shows as one more page without rows. -/
theorem Sound.roomFor (h : db.Sound) (hf : db.catalog.file f.id = .ok f) :
    ∃ r db' s, (Database.roomFor f).outcome db = (r, db') ∧ db'.Sound ∧ db.Keeps db'
      ∧ db.store.CutTo s
      ∧ ((∃ n, r = .ok ⟨f.id, n⟩ ∧ room (s f.id) = .ok n
          ∧ db'.store = s.put f.id (grown (slotCount f.schema f.pageSize) n (s f.id)))
        ∨ ∃ e, r = .error e ∧ db'.store = s
          ∧ (room (s f.id) = .error e ∨ e = .noFreeBuffer ∧ ¬ db.Idle)) := by
  obtain ⟨r, db₁, hfind, hsound, hkeeps, hcuts, hr⟩ := h.findRoom hf (Nat.zero_add _)
  have hf₁ := hcuts.registered hf
  have hlen : (db₁.store f.id).length = f.pageCount db.disk := by
    rw [length_store hf₁, hcuts.count hf]
  rw [List.drop_zero, ← store_eq hf, ← (hcuts.store h.proper f.id).room_eq] at hr
  rw [outcome_roomFor, hfind]
  rcases hr with rfl | ⟨rfl, hidle⟩
  · cases hroom : room (db₁.store f.id) with
    | error e => exact ⟨_, db₁, db₁.store, rfl, hsound, hkeeps, hcuts.store h.proper,
        .inr ⟨e, rfl, rfl, .inl hroom⟩⟩
    | ok n =>
      simp only [Except.map, Fallible.follow_ok, Nat.zero_add]
      by_cases hn : n < f.pageCount db.disk
      · rw [if_pos hn]
        refine ⟨_, db₁, db₁.store, rfl, hsound, hkeeps, hcuts.store h.proper, .inl ⟨n, rfl, hroom, ?_⟩⟩
        rw [TableContents.grown_of_lt (by rw [hlen]; exact hn), Store.put_eq_self]
      · rw [if_neg hn]
        -- all pages are full, so they can be read, and the file is as long as they are
        have hle := TableContents.room_le_length hroom
        obtain rfl : n = f.pageCount db.disk := by omega
        rw [← hcuts.count hf] at hroom ⊢
        obtain ⟨p, hp, -⟩ := Page.exists_empty ⟨f.id, f.pageCount db₁.disk⟩ f.schema f.pageSize
        obtain ⟨d, hwrite, hsound', hstore⟩ := hsound.append hf₁ hp
          (hsound.place_le_of_room hf₁ (by rw [← store_eq hf₁]; exact hroom))
        simp only [hp, Fallible.follow_ok, hwrite]
        refine ⟨_, _, db₁.store, rfl, hsound', hkeeps.trans (Keeps.of_buffer? rfl rfl rfl fun _ => rfl),
          hcuts.store h.proper, .inl ⟨_, rfl, hroom, ?_⟩⟩
        rw [hstore, TableContents.grown_of_le (Nat.le_of_eq (hlen.trans (hcuts.count hf).symm))]
  · exact ⟨_, db₁, db₁.store, rfl, hsound, hkeeps, hcuts.store h.proper,
      .inr ⟨_, rfl, rfl, .inr ⟨rfl, hidle⟩⟩⟩

/-! ### Changes of a cached page -/

/-- A cached page is replaced by another one with the same id, and marked as changed. The change shows in the
store, and nothing else does. -/
theorem Sound.change (h : db.Sound) (txn : TxnId) (hf : db.catalog.file f.id = .ok f)
    (hb : db.cache.buffer? ⟨f.id, n⟩ = some b) (hw : p.WellFormed) (hid : p.id = b.page.id)
    (hschema : p.schema = b.page.schema) (hsize : p.size = b.page.size) (change : Cells → Cells)
    (hcells : p.cells = change b.page.cells) :
    let db' := { db with cache :=
      (db.cache.modify ⟨f.id, n⟩ fun b => { b with page := p }).markChanged txn ⟨f.id, n⟩ }
    db'.Sound ∧ db.Keeps db'
      ∧ db'.store = db.store.put f.id ((db.store f.id).onPage n change) := by
  intro db'
  have hidb := PageCache.id_of_buffer? h.coherent hb
  have hcoherent : (db.cache.modify ⟨f.id, n⟩ fun b => { b with page := p }).Coherent := by
    refine h.coherent.modify fun b' hb' => ?_
    rw [hb] at hb'
    cases hb'
    exact hid
  have hbuffers : ∀ q, db'.cache.buffer? q = if ⟨f.id, n⟩ = q
      then some { b with page := p, dirty := true } else db.cache.buffer? q := by
    intro q
    rw [PageCache.buffer?_markChanged hcoherent, PageCache.buffer?_modify h.coherent]
    by_cases heq : ⟨f.id, n⟩ = q
    · subst heq
      simp only [if_true, hb, Option.map_some]
    · simp only [if_neg heq]
  refine ⟨⟨hcoherent.markChanged txn _, h.proper, ?_⟩, ⟨rfl, rfl, ?_, ?_⟩, ?_⟩
  · intro page b' hb'
    rw [hbuffers] at hb'
    split at hb'
    · next heq =>
      cases hb'
      obtain ⟨g, hg, hbacked⟩ := h.backed hb
      obtain ⟨q, hq, -⟩ := hbacked.read
      subst heq
      refine ⟨g, hg, hw, by rw [hid]; exact hbacked.table, hschema.trans hbacked.schema,
        hsize.trans hbacked.size, q, by rw [hid]; exact hq, fun hclean => by cases hclean⟩
    · exact h.backed hb'
  · exact (PageCache.length_modify ..).trans (PageCache.length_modify ..)
  · intro page b' hb' hheld
    rw [hbuffers] at hb'
    split at hb'
    · next heq =>
      cases hb'
      exact ⟨b, by rw [← heq]; exact hb, hheld⟩
    · exact ⟨b', hb', hheld⟩
  · have hcatalog : db'.catalog = db.catalog := rfl
    refine store_eq_onPage hcatalog h.proper hf (fun g => rfl) fun g m => ?_
    rw [pageCells, pageCells, hbuffers]
    by_cases heq : (⟨f.id, n⟩ : PageId) = ⟨g.id, m⟩
    · rw [if_pos heq, if_pos heq, ← heq, hb]
      exact congrArg Except.ok hcells
    · rw [if_neg heq, if_neg heq]

/-! ### Insertions and deletions -/

theorem outcome_insertRow (txn : TxnId) (table : TableId) (r : Row) (db : Database) :
    (insertRow txn table r).outcome db =
      follow (db.catalog.file table, db) fun f db =>
        if r.schema.agrees f.schema then
          follow ((Database.roomFor f).outcome db) fun page db =>
            follow ((Database.getPage page).outcome db) fun b db =>
              follow (b.page.insert r, db) fun result db =>
                (.ok (), { db with cache :=
                  (db.cache.modify page fun b => { b with page := result.2 }).markChanged txn page })
        else (.error (.mismatch f.schema r.schema), db) := by
  simp only [insertRow, tableFile, fileInsert, setPage, modifyCache, Fallible.outcome_bind,
    Fallible.outcome_get, Fallible.follow_ok, Fallible.outcome_ofExcept, Fallible.outcome_ite,
    Fallible.outcome_modify, Fallible.outcome_pure, Fallible.outcome_throw]
  congr 1
  funext f db
  split
  · simp only [Fallible.follow_follow, Fallible.follow_ok]
  · rfl

/-- The page of a table's buffer is one of the table's file. -/
theorem Sound.wellFormed_of_buffer? (h : db.Sound) (hf : db.catalog.file f.id = .ok f)
    (hb : db.cache.buffer? ⟨f.id, n⟩ = some b) :
    b.page.WellFormed ∧ b.page.id = ⟨f.id, n⟩ ∧ b.page.schema = f.schema := by
  obtain ⟨g, hg, hbacked⟩ := h.backed hb
  rw [hf] at hg
  cases hg
  exact ⟨hbacked.wellFormed, PageCache.id_of_buffer? h.coherent hb, hbacked.schema⟩

/-- The last part of an insertion: the row goes to a page with an empty cell. -/
theorem Sound.insertOnPage (h : db.Sound) (txn : TxnId) (hf : db.catalog.file f.id = .ok f) {row : Row}
    (hlen : row.Complete) (hagrees : row.schema.agrees f.schema = true)
    {s : Store} (hroom : room (s f.id) = .ok n)
    (hstore : db.store = s.put f.id (grown (slotCount f.schema f.pageSize) n (s f.id))) :
    ∃ r db' t, (follow ((Database.getPage ⟨f.id, n⟩).outcome db) fun b db =>
        follow (b.page.insert row, db) fun result db =>
          (.ok (), { db with cache := (db.cache.modify ⟨f.id, n⟩
            fun b => { b with page := result.2 }).markChanged txn ⟨f.id, n⟩ })) = (r, db')
      ∧ db'.Sound ∧ db.Keeps db' ∧ s.CutTo t
      ∧ ((r, db'.store) = t.insertRow db.catalog f.id row
        ∨ r = .error .noFreeBuffer ∧ ¬ db.Idle
          ∧ db'.store = t.put f.id (grown (slotCount f.schema f.pageSize) n (t f.id))) := by
  obtain ⟨r, db₁, hget, hsound, hkeeps, hcuts, hanswer⟩ := h.getPage ⟨f.id, n⟩
  have hf₁ := hcuts.registered hf
  have hcut := hcuts.store h.proper
  rw [hstore] at hcut
  obtain ⟨t, ht, hstore₁⟩ := hcut.of_grown (TableContents.room_le_length hroom)
  have hroom₁ : room (t f.id) = .ok n := by rw [(ht f.id).room_eq, hroom]
  -- tables with no room for a row are not registered
  have hslots : slotCount f.schema f.pageSize ≠ 0 := h.proper.slotCount_ne_zero hf
  rw [hget]
  -- the page is asked for again: an appended one was never cached
  cases hanswer with
  | found hb hcells =>
    next b =>
    obtain ⟨hw, hid, hschema⟩ := hsound.wellFormed_of_buffer? hf₁ hb
    have hmem : none ∈ b.page.cells := by
      obtain ⟨cells, hcells', hmem⟩ := TableContents.none_mem_of_room hslots hroom₁
      have hpage := page_store hsound hf₁ n
      rw [pageCells_of_buffer? hb, Store.page, hf₁, hstore₁, Store.put_self] at hpage
      simp only [hcells'] at hpage
      cases hpage
      exact hmem
    obtain ⟨slot, hslot⟩ := Page.exists_findIdx?_of_none_mem hmem
    have hinsert := Page.insert_eq b.page row
    rw [hschema, hagrees, Bool.true_and, hslot] at hinsert
    rw [Fallible.follow_ok]
    by_cases htyped : Row.wellTyped f.schema row.fields = true
    · rw [if_pos htyped] at hinsert
      obtain ⟨hw', hid', hschema', hsize', slot', hslot', hcells'⟩ := hw.insert hlen hinsert
      have hfill : (b.page.setSlot slot (some { row with record := some ⟨b.page.id, slot⟩ })).cells
          = Page.fillFirst row.fields b.page.cells := by
        rw [hcells', Page.fillFirst, hslot']
      obtain ⟨hsound', hkeeps', hstore'⟩ := hsound.change txn hf₁ hb hw' hid' hschema' hsize' _ hfill
      rw [hinsert]
      refine ⟨_, _, t, rfl, hsound', hkeeps.trans hkeeps', ht, .inl ?_⟩
      rw [hstore', hstore₁, Store.put_put, Store.put_self, Store.insertRow, hf]
      simp only [hagrees, if_true, hroom₁, htyped]
    · rw [if_neg htyped] at hinsert
      rw [hinsert]
      refine ⟨_, _, t, rfl, hsound, hkeeps, ht, .inl ?_⟩
      rw [hstore₁, Store.insertRow, hf]
      simp only [hagrees, if_true, hroom₁, if_neg htyped]
  | refused he =>
    -- the page is there and has an empty cell
    next e =>
    obtain ⟨cells, hcells, -⟩ := TableContents.none_mem_of_room hslots hroom
    rw [Store.page, hf, hstore, Store.put_self] at he
    simp only [hcells] at he
    cases he
  | full hfull =>
    exact ⟨_, db₁, t, rfl, hsound, hkeeps, ht, .inr ⟨rfl, fun hi => hi.not_full h hfull, hstore₁⟩⟩

/-- An insertion through the cache is one in the store. Only a cache without a free frame can refuse more rows
than the store does; then at most an empty page was appended. -/
theorem Sound.insertRow (h : db.Sound) (txn : TxnId) (table : TableId) {row : Row}
    (hlen : row.Complete) :
    ∃ r db' s, (Database.insertRow txn table row).outcome db = (r, db') ∧ db'.Sound ∧ db.Keeps db'
      ∧ db.store.CutTo s
      ∧ ((r, db'.store) = s.insertRow db.catalog table row
        ∨ r = .error .noFreeBuffer ∧ ¬ db.Idle
          ∧ (db'.store = s ∨ ∃ slots n, db'.store = s.put table (grown slots n (s table)))) := by
  rw [outcome_insertRow]
  cases hf : db.catalog.file table with
  | error e => exact ⟨_, _, db.store, rfl, h, Keeps.refl db, Store.CutTo.refl _,
      .inl (by rw [Store.insertRow, hf])⟩
  | ok f =>
    obtain rfl := h.proper.id_of_file hf
    rw [Fallible.follow_ok]
    by_cases hagrees : row.schema.agrees f.schema = true
    · rw [if_pos hagrees]
      obtain ⟨r, db₁, s, hroomFor, hsound, hkeeps, hcut, hcase⟩ := h.roomFor hf
      rw [hroomFor]
      rcases hcase with ⟨n, rfl, hroom, hstore⟩ | ⟨e, rfl, hstore, he⟩
      · obtain ⟨r, db₂, t, hrest, hsound₂, hkeeps₂, hcut₂, hr⟩ := hsound.insertOnPage txn
          (hkeeps.registered hf) hlen hagrees hroom hstore
        rw [hkeeps.catalog] at hr
        refine ⟨r, db₂, t, hrest, hsound₂, hkeeps.trans hkeeps₂, hcut.trans hcut₂, ?_⟩
        rcases hr with hr | ⟨rfl, hidle, hgrown⟩
        · exact .inl hr
        · exact .inr ⟨rfl, fun hi => hidle (hi.of_keeps hkeeps), .inr ⟨_, _, hgrown⟩⟩
      · rcases he with hroom | ⟨rfl, hidle⟩
        · refine ⟨_, _, s, rfl, hsound, hkeeps, hcut, .inl ?_⟩
          rw [Store.insertRow, hf, hstore]
          simp only [hagrees, if_true, hroom]
        · exact ⟨_, _, s, rfl, hsound, hkeeps, hcut, .inr ⟨rfl, hidle, .inl hstore⟩⟩
    · rw [if_neg hagrees]
      refine ⟨_, _, db.store, rfl, h, Keeps.refl db, Store.CutTo.refl _, .inl ?_⟩
      rw [Store.insertRow, hf]
      simp only [if_neg hagrees]

theorem outcome_deleteRow (txn : TxnId) (row : Row) (db : Database) :
    (deleteRow txn row).outcome db =
      match row.record with
      | none => (.error .missingRecordId, db)
      | some record =>
        follow (db.catalog.file record.page.table, db) fun f db =>
          if record.page.table ≠ f.id ∨ f.pageCount db.disk ≤ record.page.number then
            (.error (.invalidPageReference record.page), db)
          else
            follow ((Database.getPage record.page).outcome db) fun b db =>
              follow (b.page.delete row, db) fun p db =>
                (.ok (), { db with cache := (db.cache.modify record.page
                  fun b => { b with page := p }).markChanged txn record.page }) := by
  unfold deleteRow fileDelete
  cases row.record with
  | none => rfl
  | some record =>
    simp only [tableFile, setPage, modifyCache, Fallible.outcome_bind, Fallible.outcome_get,
      Fallible.follow_ok, Fallible.outcome_ofExcept, Fallible.outcome_ite, Fallible.outcome_modify,
      Fallible.outcome_pure, Fallible.outcome_throw]
    congr 1
    funext f db
    split
    · rfl
    · simp only [Fallible.follow_follow, Fallible.follow_ok]

/-- The last part of a deletion: the cell is emptied on its page. -/
theorem Sound.deleteOnPage (h : db.Sound) (txn : TxnId) (hf : db.catalog.file f.id = .ok f) {row : Row}
    {slot : Nat} (hrecord : row.record = some ⟨⟨f.id, n⟩, slot⟩) :
    ∃ r db' s, (follow ((Database.getPage ⟨f.id, n⟩).outcome db) fun b db =>
        follow (b.page.delete row, db) fun p db =>
          (.ok (), { db with cache := (db.cache.modify ⟨f.id, n⟩
            fun b => { b with page := p }).markChanged txn ⟨f.id, n⟩ })) = (r, db')
      ∧ db'.Sound ∧ db.Keeps db' ∧ db.store.CutTo s
      ∧ ((r, db'.store) = s.deleteRow db.catalog row ∨ r = .error .noFreeBuffer ∧ ¬ db.Idle ∧ db'.store = s) := by
  obtain ⟨r, db₁, hget, hsound, hkeeps, hcuts, hanswer⟩ := h.getPage ⟨f.id, n⟩
  have hf₁ := hcuts.registered hf
  have hcut := hcuts.store h.proper
  have hpage := page_store hsound hf₁ n
  rw [hcuts.catalog] at hpage
  rw [hget]
  cases hanswer with
  | found hb hcells =>
    next b =>
    obtain ⟨hw, hid, hschema⟩ := hsound.wellFormed_of_buffer? hf₁ hb
    rw [pageCells_of_buffer? hb] at hpage
    have hdelete := Page.delete_eq b.page hrecord hid.symm
    rw [Fallible.follow_ok]
    by_cases hused : ∃ fields, b.page.cells[slot]? = some (some fields)
    · obtain ⟨fields, hslot⟩ := hused
      simp only [hslot] at hdelete
      obtain ⟨hw', hid', hschema', hsize', hcells'⟩ := hw.delete hrecord hid.symm hdelete
      obtain ⟨hsound', hkeeps', hstore'⟩ := hsound.change txn hf₁ hb hw' hid' hschema' hsize'
        (fun cells => cells.set slot none) hcells'
      rw [hdelete]
      refine ⟨_, _, db₁.store, rfl, hsound', hkeeps.trans hkeeps', hcut, .inl ?_⟩
      rw [hstore', Store.deleteRow, hrecord]
      simp only [hpage, hslot]
    · -- an empty cell and one behind the last are refused alike, and the store agrees
      have hanswer : b.page.delete row = .error (.slotEmpty ⟨f.id, n⟩ slot) := by
        rw [hdelete]
        split
        · next fields hslot => exact absurd ⟨fields, hslot⟩ hused
        · rw [hid]
      rw [hanswer]
      refine ⟨_, _, db₁.store, rfl, hsound, hkeeps, hcut, .inl ?_⟩
      rw [Store.deleteRow, hrecord]
      simp only [hpage]
      split
      · next fields hslot => exact absurd ⟨fields, hslot⟩ hused
      · rfl
  | refused he =>
    next e =>
    refine ⟨_, db₁, db₁.store, rfl, hsound, hkeeps, hcut, .inl ?_⟩
    rw [Store.deleteRow, hrecord]
    simp only [hcut.page_eq_error he]
  | full hfull =>
    exact ⟨_, db₁, db₁.store, rfl, hsound, hkeeps, hcut, .inr ⟨rfl, fun hi => hi.not_full h hfull, rfl⟩⟩

/-- A deletion through the cache is one in the store. -/
theorem Sound.deleteRow (h : db.Sound) (txn : TxnId) (row : Row) :
    ∃ r db' s, (Database.deleteRow txn row).outcome db = (r, db') ∧ db'.Sound ∧ db.Keeps db'
      ∧ db.store.CutTo s
      ∧ ((r, db'.store) = s.deleteRow db.catalog row
        ∨ r = .error .noFreeBuffer ∧ ¬ db.Idle ∧ db'.store = s) := by
  -- refused before a page is asked for: nothing changes
  have hrefused : ∀ {e : StorageError}, (Except.error e, db.store) = db.store.deleteRow db.catalog row →
      ∃ r db' s, ((Except.error e : Except StorageError Unit), db) = (r, db') ∧ db'.Sound ∧ db.Keeps db'
        ∧ db.store.CutTo s
        ∧ ((r, db'.store) = s.deleteRow db.catalog row
          ∨ r = .error .noFreeBuffer ∧ ¬ db.Idle ∧ db'.store = s) :=
    fun he => ⟨_, _, db.store, rfl, h, Keeps.refl db, Store.CutTo.refl _, .inl he⟩
  rw [outcome_deleteRow]
  cases hrecord : row.record with
  | none => exact hrefused (by rw [Store.deleteRow, hrecord])
  | some record =>
    obtain ⟨⟨table, n⟩, slot⟩ := record
    simp only
    cases hf : db.catalog.file table with
    | error e =>
      refine hrefused ?_
      rw [Store.deleteRow, hrecord]
      simp only [Store.page, hf]
    | ok f =>
      obtain rfl := h.proper.id_of_file hf
      simp only [Fallible.follow_ok, ne_eq, not_true_eq_false, false_or]
      by_cases hn : f.pageCount db.disk ≤ n
      · rw [if_pos hn]
        refine hrefused ?_
        rw [Store.deleteRow, hrecord]
        simp only [Store.page, hf, store_eq hf, contents_getElem?, if_neg (Nat.not_lt.mpr hn)]
      · rw [if_neg hn]
        exact h.deleteOnPage txn hf hrecord

/-! ### Flushes -/

theorem outcome_writePages_cons (page : PageId) (pages : List PageId) (db : Database) :
    (Database.writePages (page :: pages)).outcome db =
      match db.cache.pageTable.get? page with
      | some frame => follow ((Database.writeBack frame).outcome db) fun _ db => (Database.writePages pages).outcome db
      | none => (Database.writePages pages).outcome db := by
  simp only [Database.writePages, Fallible.outcome_bind, Fallible.outcome_get, Fallible.follow_ok]
  cases db.cache.pageTable.get? page with
  | none => rfl
  | some frame => simp only [Fallible.outcome_bind]

theorem outcome_flush (db : Database) :
    Database.flush.outcome db = follow ((Database.writePages db.cache.pageTable.keys).outcome db) fun _ db =>
      (.ok (), { db with cache := { db.cache with changed := {} } }) := by
  simp only [Database.flush, modifyCache, Fallible.outcome_bind, Fallible.outcome_get, Fallible.follow_ok,
    Fallible.outcome_modify]

theorem outcome_flushPages (txn : TxnId) (db : Database) :
    (Database.flushPages txn).outcome db = (Database.writePages (db.cache.changedBy txn)).outcome
      { db with cache := { db.cache with changed := db.cache.changed.erase txn } } := by
  simp only [Database.flushPages, modifyCache, Fallible.outcome_bind, Fallible.outcome_get, Fallible.follow_ok,
    Fallible.outcome_modify]

/-- Writing changed pages is never refused and does not show. -/
theorem Sound.writePages (h : db.Sound) (pages : List PageId) :
    ∃ db', (Database.writePages pages).outcome db = (.ok (), db') ∧ db'.Sound ∧ db.Keeps db'
      ∧ db'.store = db.store := by
  -- each page is looked up again: one that left the cache was written when it left
  induction pages generalizing db with
  | nil => exact ⟨db, rfl, h, Keeps.refl db, rfl⟩
  | cons page pages ih =>
    rw [outcome_writePages_cons]
    cases db.cache.pageTable.get? page with
    | none => exact ih h
    | some frame =>
      obtain ⟨db₁, hwrite, hwritten⟩ := h.writeBack frame
      obtain ⟨db₂, hrest, hsound, hkeeps, hstore⟩ := ih hwritten.sound
      simp only [hwrite, Fallible.follow_ok]
      exact ⟨db₂, hrest, hsound, hwritten.keeps.trans hkeeps,
        hstore.trans (hwritten.store h.proper)⟩

/-- What the cache remembers of transactions does not show. -/
theorem Sound.forget (h : db.Sound) (changed : Assoc TxnId (List PageId)) :
    let db' := { db with cache := { db.cache with changed := changed } }
    db'.Sound ∧ db.Keeps db' ∧ db'.store = db.store :=
  ⟨⟨⟨h.coherent.hand_lt, h.coherent.bufferAt, h.coherent.frameOf⟩, h.proper, h.backed⟩,
    Keeps.of_buffer? rfl rfl rfl fun _ => rfl, store_of_buffer? rfl rfl fun _ => rfl⟩

theorem Sound.flush (h : db.Sound) :
    ∃ db', Database.flush.outcome db = (.ok (), db') ∧ db'.Sound ∧ db.Keeps db'
      ∧ db'.store = db.store := by
  obtain ⟨db₁, hwrite, hsound, hkeeps, hstore⟩ := h.writePages db.cache.pageTable.keys
  obtain ⟨hsound', hkeeps', hstore'⟩ := hsound.forget {}
  rw [outcome_flush, hwrite, Fallible.follow_ok]
  exact ⟨_, rfl, hsound', hkeeps.trans hkeeps', hstore'.trans hstore⟩

theorem Sound.flushPages (h : db.Sound) (txn : TxnId) :
    ∃ db', (Database.flushPages txn).outcome db = (.ok (), db') ∧ db'.Sound ∧ db.Keeps db'
      ∧ db'.store = db.store := by
  obtain ⟨hsound, hkeeps, hstore⟩ := h.forget (db.cache.changed.erase txn)
  obtain ⟨db₁, hwrite, hsound', hkeeps', hstore'⟩ := hsound.writePages (db.cache.changedBy txn)
  rw [outcome_flushPages]
  exact ⟨db₁, hwrite, hsound', hkeeps.trans hkeeps', hstore'.trans hstore⟩

end Database

end RelStore
