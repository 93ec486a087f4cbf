/-
A cursor over a table that others change meanwhile.

* `ScanEvent`, `Scanning` — an open cursor beside other callers of the cache, with the rows that it handed out and the
  pages that it loaded;
* `HeapCursor.searched` — the pages that one search loads, each with the database right after it;
* `HeapCursor.Searched`, `HeapCursor.searched_spec` — what a search does, whether it answers or fails;
* `Scanning.Follows` — the invariant: what was handed out, and then what is pending, are the rows of the loaded pages;
* `Scanning.follows_step`, `Scanning.follows_run` — one event keeps it, and so do all;
* `Scanning.Faithful`, `Scanning.faithful_run` — rows come by page and slot, none of them twice, each as it was stored
  when its page was loaded; a call that fails loses none; and at the end every row that was there all the time has
  been handed out.

Design notes.  A page is copied once and never looked at again, so what the others do matters only at the moment when
a page is loaded.  The list of loads keeps those moments; it is there for the proof, the cursor does not see it.
-/
import RelStore.Proofs.Store.Flushing
import RelStore.Proofs.Query.Reading

namespace RelStore

open Page (Cells cut)
open Fallible (follow)

variable {f : HeapFile} {db db' : Database} {n fuel : Nat} {c c' : HeapCursor}

/-! ### Rows by address -/

/-- Whether an address comes before another one of the same table. -/
def RecordId.Before (a b : RecordId) : Prop :=
  a.page.number < b.page.number ∨ a.page.number = b.page.number ∧ a.slot < b.slot

/-- Whether a stored row comes before another one of the same table. -/
def Row.Precedes (a b : Row) : Prop :=
  ∃ r r', a.record = some r ∧ b.record = some r' ∧ r.Before r'

theorem Row.Precedes.record_ne {a b : Row} (h : a.Precedes b) : a.record ≠ b.record := by
  obtain ⟨r, r', ha, hb, hbefore⟩ := h
  intro heq
  rw [ha, hb] at heq
  cases heq
  rcases hbefore with hlt | ⟨-, hlt⟩
  · exact Nat.lt_irrefl _ hlt
  · exact Nat.lt_irrefl _ hlt

namespace Page

theorem mem_rows_iff {p : Page} {row : Row} : row ∈ p.rows ↔ ∃ slot : Nat, p.slots[slot]? = some (some row) := by
  rw [rows, List.mem_filterMap]
  constructor
  · rintro ⟨content, hmem, rfl⟩
    exact List.mem_iff_getElem?.mp hmem
  · rintro ⟨slot, hslot⟩
    exact ⟨some row, List.mem_of_getElem? hslot, rfl⟩

/-- The rows in some slots, the first of which is slot `k`, come by slot. -/
theorem pairwise_slots {page : PageId} {k : Nat} {slots : List (Option Row)}
    (hrecord : ∀ (i : Nat) (r : Row), slots[i]? = some (some r) → r.record = some ⟨page, k + i⟩) :
    (slots.filterMap fun s => s).Pairwise Row.Precedes := by
  induction slots generalizing k with
  | nil => exact List.Pairwise.nil
  | cons slot slots ih =>
    have htail := ih (k := k + 1) fun i r hr => by
      rw [hrecord (i + 1) r hr, Nat.add_assoc, Nat.add_comm 1 i]
    cases slot with
    | none => exact htail
    | some r =>
      refine List.Pairwise.cons (fun r' hr' => ?_) htail
      obtain ⟨content, hmem, rfl⟩ := List.mem_filterMap.mp hr'
      obtain ⟨i, hi⟩ := List.mem_iff_getElem?.mp hmem
      refine ⟨_, _, hrecord 0 r rfl, hrecord (i + 1) r' hi, .inr ⟨rfl, ?_⟩⟩
      show k + 0 < k + (i + 1)
      omega

theorem WellFormed.pairwise_rows {p : Page} (h : p.WellFormed) : p.rows.Pairwise Row.Precedes :=
  pairwise_slots fun i r hr => by rw [Nat.zero_add]; exact h.record hr

end Page

/-! ### Occupied addresses -/

namespace Database

/-- Whether there is a row at an address. -/
def Occupied (db : Database) (record : RecordId) : Prop :=
  ∃ fields, db.store.row? record = some fields

/-- The row at an address of a cached page is the one in its slot. -/
theorem Sound.row?_eq (h : db.Sound) (hf : db.catalog.file f.id = .ok f) {k : Nat} {b : Buffer}
    (hb : db.cache.buffer? ⟨f.id, k⟩ = some b) (slot : Nat) :
    db.store.row? ⟨⟨f.id, k⟩, slot⟩ = b.page.cells[slot]?.join := by
  have hpage : (db.store f.id)[k]? = some (.ok b.page.cells) := by
    rw [store_eq hf, contents_getElem?, if_pos (h.place_le hf hb).1, pageCells_of_buffer? hb]
  simp only [Store.row?, hpage]

/-- An occupied address lies on a page of the file. -/
theorem Occupied.lt_pageCount {record : RecordId} (h : db.Occupied record) (hf : db.catalog.file f.id = .ok f)
    (htable : record.page.table = f.id) : record.page.number < f.pageCount db.disk := by
  obtain ⟨fields, hrow⟩ := h
  rw [Store.row?, htable, store_eq hf, contents_getElem?] at hrow
  split at hrow
  · next cells hcells =>
    split at hcells
    · assumption
    · cases hcells
  · cases hrow

/-- Cutting texts neither frees nor fills an address. -/
theorem Occupied.of_cutsTo {record : RecordId} (h : db.Occupied record) (hproper : db.catalog.Proper)
    (hcuts : db.CutsTo db') : db'.Occupied record := by
  obtain ⟨fields, hrow⟩ := h
  rw [Store.row?] at hrow
  have hcut := (hcuts.store hproper record.page.table).2 record.page.number
  rw [Occupied, Store.row?]
  rcases hcut with hsame | hcut
  · rw [hsame]
    exact ⟨fields, hrow⟩
  · rw [hcut]
    split at hrow
    · next cells hcells =>
      have hcell : cells[record.slot]? = some (some fields) := by
        cases hget : cells[record.slot]? with
        | none =>
          rw [hget] at hrow
          cases hrow
        | some cell =>
          rw [hget] at hrow
          exact congrArg some hrow
      rw [hcells]
      refine ⟨Page.cutRow fields, ?_⟩
      show (cut cells)[record.slot]?.join = _
      rw [cut, List.getElem?_map, hcell]
      rfl
    · cases hrow

end Database

/-! ### One search -/

/-- The rows of a page that was loaded into a database. -/
def loadedRows (f : HeapFile) (load : Nat × Database) : List Row :=
  match load.2.cache.buffer? ⟨f.id, load.1⟩ with
  | some b => b.page.rows
  | none => []

/-- A page was loaded: it is cached, and the database fits to its disk. -/
structure Loaded (f : HeapFile) (load : Nat × Database) : Prop where
  sound : load.2.Sound
  registered : load.2.catalog.file f.id = .ok f
  cached : ∃ b, load.2.cache.buffer? ⟨f.id, load.1⟩ = some b

namespace Loaded

variable {load : Nat × Database}

/-- The rows of a loaded page stand on it, one behind the other, each as it is stored. -/
theorem stored (h : Loaded f load) {row : Row} (hrow : row ∈ loadedRows f load) :
    ∃ slot, row.record = some ⟨⟨f.id, load.1⟩, slot⟩
      ∧ load.2.store.row? ⟨⟨f.id, load.1⟩, slot⟩ = some row.fields := by
  obtain ⟨b, hb⟩ := h.cached
  rw [loadedRows, hb] at hrow
  obtain ⟨slot, hslot⟩ := Page.mem_rows_iff.mp hrow
  obtain ⟨f', -, hbacked⟩ := h.sound.backed hb
  refine ⟨slot, ?_, ?_⟩
  · rw [hbacked.wellFormed.record hslot, PageCache.id_of_buffer? h.sound.coherent hb]
  · rw [h.sound.row?_eq h.registered hb, Page.cells, List.getElem?_map, hslot]
    rfl

theorem pairwise (h : Loaded f load) : (loadedRows f load).Pairwise Row.Precedes := by
  obtain ⟨b, hb⟩ := h.cached
  obtain ⟨f', -, hbacked⟩ := h.sound.backed hb
  rw [loadedRows, hb]
  exact hbacked.wellFormed.pairwise_rows

/-- The row at an occupied address is among the rows of its page. -/
theorem exists_row (h : Loaded f load) {slot : Nat} (hoccupied : load.2.Occupied ⟨⟨f.id, load.1⟩, slot⟩) :
    ∃ row ∈ loadedRows f load, row.record = some ⟨⟨f.id, load.1⟩, slot⟩ := by
  obtain ⟨b, hb⟩ := h.cached
  obtain ⟨fields, hfields⟩ := hoccupied
  rw [h.sound.row?_eq h.registered hb, Page.cells, List.getElem?_map] at hfields
  rcases hslot : b.page.slots[slot]? with _ | _ | row
  · rw [hslot] at hfields
    cases hfields
  · rw [hslot] at hfields
    cases hfields
  · obtain ⟨f', -, hbacked⟩ := h.sound.backed hb
    refine ⟨row, ?_, ?_⟩
    · rw [loadedRows, hb]
      exact Page.mem_rows_iff.mpr ⟨slot, hslot⟩
    · rw [hbacked.wellFormed.record hslot, PageCache.id_of_buffer? h.sound.coherent hb]

end Loaded

namespace HeapCursor

/-- The pages that a search loads, each with the database right after it was loaded. -/
def searched (f : HeapFile) : (fuel : Nat) → HeapCursor → Database → List (Nat × Database)
  | 0, _, _ => []
  | fuel + 1, c, db =>
    if c.pending ≠ [] then []
    else if f.pageCount db.disk ≤ c.nextPage then []
    else
      match (Database.getPage ⟨f.id, c.nextPage⟩).outcome db with
      | (.ok b, db) => (c.nextPage, db) :: searched f fuel ⟨c.opened, c.nextPage + 1, b.page.rows⟩ db
      | (.error _, _) => []

/-- The page at which a cursor stands was refused, and this is what that left behind. -/
def RefusedAt (f : HeapFile) (c : HeapCursor) (e : StorageError) (db : Database) : Prop :=
  ∃ before, (Database.getPage ⟨f.id, c.nextPage⟩).outcome before = (.error e, db)

/-- What a search does from a cursor `c` and a database `db`. -/
structure Searched (f : HeapFile) (fuel : Nat) (c : HeapCursor) (db : Database) (r : Except StorageError Bool)
    (c' : HeapCursor) (db' : Database) : Prop where
  sound : db'.Sound
  spares : db.Spares db'
  cuts : db.CutsTo db'
  opened : c'.opened = c.opened
  /-- Pages are loaded one after the other, and the cursor stands behind the last of them. -/
  pages : (searched f fuel c db).map Prod.fst = List.range' c.nextPage (searched f fuel c db).length
  place : c'.nextPage = c.nextPage + (searched f fuel c db).length
  /-- Their rows are pending, and no row is lost. -/
  rows : c'.pending = c.pending ++ (searched f fuel c db).flatMap (loadedRows f)
  loads : ∀ load ∈ searched f fuel c db, Loaded f load ∧ db.CutsTo load.2
  more : r = .ok true → c'.pending ≠ []
  ended : r = .ok false → c'.pending = [] ∧ f.pageCount db.disk ≤ c'.nextPage
  failed : ∀ e, r = .error e → f.pageCount db.disk - c.nextPage < fuel → c'.pending = [] ∧ RefusedAt f c' e db'

/-- A search that loads nothing. -/
theorem Searched.of_nil {r : Except StorageError Bool} (hsound : db'.Sound) (hspares : db.Spares db')
    (hcuts : db.CutsTo db') (hnil : searched f fuel c db = []) (hmore : r = .ok true → c.pending ≠ [])
    (hended : r = .ok false → c.pending = [] ∧ f.pageCount db.disk ≤ c.nextPage)
    (hfailed : ∀ e, r = .error e → f.pageCount db.disk - c.nextPage < fuel → c.pending = [] ∧ RefusedAt f c e db') :
    Searched f fuel c db r c db' := by
  refine ⟨hsound, hspares, hcuts, rfl, ?_, ?_, ?_, ?_, hmore, hended, hfailed⟩
  · rw [hnil]
    rfl
  · rw [hnil]
    rfl
  · rw [hnil]
    exact (List.append_nil _).symm
  · intro load hload
    rw [hnil] at hload
    cases hload

/-- A search that goes on behind a page that it loaded. -/
theorem Searched.of_cons {r : Except StorageError Bool} {b : Buffer} {db₁ : Database} (hspares : db.Spares db₁)
    (hcuts : db.CutsTo db₁) (hloaded : Loaded f (c.nextPage, db₁))
    (hb : db₁.cache.buffer? ⟨f.id, c.nextPage⟩ = some b) (hpending : c.pending = [])
    (hin : c.nextPage < f.pageCount db.disk) (hf : db.catalog.file f.id = .ok f)
    (hcons : searched f (fuel + 1) c db
      = (c.nextPage, db₁) :: searched f fuel ⟨c.opened, c.nextPage + 1, b.page.rows⟩ db₁)
    (h : Searched f fuel ⟨c.opened, c.nextPage + 1, b.page.rows⟩ db₁ r c' db') :
    Searched f (fuel + 1) c db r c' db' := by
  have hcount := hcuts.count hf
  refine ⟨h.sound, hspares.trans h.spares, hcuts.trans h.cuts, h.opened, ?_, ?_, ?_, ?_, h.more, ?_, ?_⟩
  · rw [hcons, List.map_cons, h.pages, List.length_cons, List.range'_succ]
  · rw [hcons, h.place, List.length_cons]
    show c.nextPage + 1 + _ = _
    omega
  · have hrows : loadedRows f (c.nextPage, db₁) = b.page.rows := by rw [loadedRows, hb]
    rw [hcons, hpending, List.nil_append, List.flatMap_cons, hrows, h.rows]
  · intro load hload
    rw [hcons] at hload
    rcases List.mem_cons.mp hload with rfl | hload
    · exact ⟨hloaded, hcuts⟩
    · exact ⟨(h.loads load hload).1, hcuts.trans (h.loads load hload).2⟩
  · intro hr
    rw [← hcount]
    exact h.ended hr
  · intro e hr hfuel
    refine h.failed e hr ?_
    show f.pageCount db₁.disk - (c.nextPage + 1) < fuel
    omega

/-- What a search does, whether it answers or fails. -/
theorem searched_spec {r : Except StorageError Bool} (h : db.Sound) (hf : db.catalog.file f.id = .ok f)
    (hout : (search f fuel).outcome (c, db) = (r, c', db')) : Searched f fuel c db r c' db' := by
  have hself : db.CutsTo db := .of_buffer? rfl rfl fun _ => rfl
  have hsparesSelf := Database.Spares.refl h.coherent
  -- on the fuel; a page that is loaded leaves less of it
  induction fuel generalizing c db with
  | zero =>
    cases hout
    exact .of_nil h hsparesSelf hself rfl nofun nofun fun e he hfuel => absurd hfuel (Nat.not_lt_zero _)
  | succ fuel ih =>
    rw [outcome_search] at hout
    by_cases hpending : c.pending ≠ []
    · rw [if_pos hpending] at hout
      cases hout
      exact .of_nil h hsparesSelf hself (by rw [searched, if_pos hpending]) (fun _ => hpending) nofun nofun
    · rw [if_neg hpending] at hout
      have hnil : c.pending = [] := not_ne_iff.mp hpending
      by_cases hend : f.pageCount db.disk ≤ c.nextPage
      · rw [if_pos hend] at hout
        cases hout
        exact .of_nil h hsparesSelf hself (by rw [searched, if_neg hpending, if_pos hend]) nofun
          (fun _ => ⟨hnil, hend⟩) nofun
      · rw [if_neg hend] at hout
        obtain ⟨answer, db₁, hget, hsound, -, hcuts, hanswer⟩ := h.getPage ⟨f.id, c.nextPage⟩
        have hspares := Database.spares_getPage h.coherent ⟨f.id, c.nextPage⟩
        rw [hget] at hout hspares
        cases answer with
        | error e =>
          cases hout
          refine .of_nil hsound hspares hcuts ?_ nofun nofun ?_
          · rw [searched, if_neg hpending, if_neg hend, hget]
          · rintro _ ⟨⟩ -
            exact ⟨hnil, db, hget⟩
        | ok b =>
          obtain ⟨hb, -⟩ := hanswer
          have hrest := ih hsound (hcuts.registered hf) hout (.of_buffer? rfl rfl fun _ => rfl)
            (Database.Spares.refl hsound.coherent)
          refine .of_cons hspares hcuts ⟨hsound, hcuts.registered hf, b, hb⟩ hb hnil (Nat.not_le.mp hend) hf ?_ hrest
          rw [searched, if_neg hpending, if_neg hend, hget]

/-- A row is taken by looking for it and removing it from the pending ones. -/
theorem outcome_next (c : HeapCursor) (db : Database) :
    (next f fuel).outcome (c, db) = follow ((hasNext f fuel).outcome (c, db)) fun more s =>
      match more, s.1.pending with
      | true, row :: rest => (.ok row, { s.1 with pending := rest }, s.2)
      | _, _ => (.error .noMoreRows, s) := by
  rw [next, Fallible.outcome_bind]
  congr 1
  funext more s
  cases more with
  | false => rfl
  | true => cases hpending : s.1.pending <;> simp [hpending]

/-- What an open cursor does when it is asked for a row: it hands out the first one that is pending after the search,
or leaves everything as the search left it. -/
theorem next_cases (h : db.Sound) (hf : db.catalog.file f.id = .ok f) (hopened : c.opened = true) (fuel : Nat) :
    ∃ r c' db', (hasNext f fuel).outcome (c, db) = (r, c', db') ∧ Searched f fuel c db r c' db'
      ∧ ((∃ row rest, c'.pending = row :: rest
            ∧ (next f fuel).outcome (c, db) = (.ok row, { c' with pending := rest }, db'))
          ∨ ∃ e, (next f fuel).outcome (c, db) = (.error e, c', db')
            ∧ (r = .error e ∨ r = .ok false ∧ e = .noMoreRows)) := by
  obtain ⟨r, c', db', hout⟩ : ∃ r c' db', (hasNext f fuel).outcome (c, db) = (r, c', db') := ⟨_, _, _, rfl⟩
  have hsearched : Searched f fuel c db r c' db' := by
    rw [outcome_hasNext hopened] at hout
    exact searched_spec h hf hout
  refine ⟨r, c', db', hout, hsearched, ?_⟩
  rw [outcome_next, hout]
  rcases r with e | _ | _
  · exact .inr ⟨e, rfl, .inl rfl⟩
  · exact .inr ⟨.noMoreRows, rfl, .inr ⟨rfl, rfl⟩⟩
  · obtain ⟨row, rest, hpending⟩ := List.exists_cons_of_ne_nil (hsearched.more rfl)
    refine .inl ⟨row, rest, hpending, ?_⟩
    simp only [Fallible.follow_ok, hpending]

end HeapCursor

/-! ### A cursor beside other callers -/

/-- An open cursor over a table, beside other callers of the cache. -/
structure Scanning where
  pool : Pool
  cursor : HeapCursor
  /-- The rows that were handed out, in order. -/
  given : List Row := []
  /-- The pages that were loaded, in order, each with the database right after it was loaded. -/
  loads : List (Nat × Database) := []

/-- What can happen while a cursor is open. -/
inductive ScanEvent where
  | others (call : PoolCall)
  | hasNext (fuel : Nat)
  | next (fuel : Nat)

/-- Whether the rows that the others store have as many fields as columns. -/
def ScanEvent.Proper : ScanEvent → Prop
  | others call => call.Proper
  | _ => True

instance : DecidablePred ScanEvent.Proper
  | .others call => inferInstanceAs (Decidable call.Proper)
  | .hasNext _ | .next _ => isTrue trivial

namespace Scanning

/-- A cursor is opened. -/
def opening (f : HeapFile) (pool : Pool) : Scanning :=
  let (_, c, db) := (HeapCursor.start f).outcome (HeapCursor.closed, pool.db)
  ⟨{ pool with db := db }, c, [], []⟩

/-- What an event does. -/
def step (f : HeapFile) (s : Scanning) : ScanEvent → Scanning
  | .others call => { s with pool := s.pool.step call }
  | .hasNext fuel =>
    let (_, c, db) := (HeapCursor.hasNext f fuel).outcome (s.cursor, s.pool.db)
    ⟨{ s.pool with db := db }, c, s.given, s.loads ++ HeapCursor.searched f fuel s.cursor s.pool.db⟩
  | .next fuel =>
    let (r, c, db) := (HeapCursor.next f fuel).outcome (s.cursor, s.pool.db)
    ⟨{ s.pool with db := db }, c, s.given ++ r.toOption.toList,
      s.loads ++ HeapCursor.searched f fuel s.cursor s.pool.db⟩

/-- What some events do, one after the other. -/
def run (f : HeapFile) (events : List ScanEvent) (s : Scanning) : Scanning :=
  events.foldl (step f) s

/-- The databases before, between and after some events. -/
def history (f : HeapFile) : List ScanEvent → Scanning → List Database
  | [], s => [s.pool.db]
  | event :: events, s => s.pool.db :: history f events (s.step f event)

/-- Whether there was a row at an address all the time. -/
def Lasting (f : HeapFile) (events : List ScanEvent) (s : Scanning) (record : RecordId) : Prop :=
  ∀ db ∈ history f events s, db.Occupied record

/-! ### The invariant -/

/-- What was handed out, and then what is pending, are the rows of the pages that were loaded, each once and in order.
There were rows at the addresses in `lasting` when their pages were loaded. -/
structure Follows (f : HeapFile) (n : Nat) (catalog : Catalog) (lasting : RecordId → Prop) (s : Scanning) : Prop where
  pool : s.pool.Sound n catalog
  opened : s.cursor.opened = true
  pages : s.loads.map Prod.fst = List.range s.cursor.nextPage
  rows : s.given ++ s.cursor.pending = s.loads.flatMap (loadedRows f)
  loaded : ∀ load ∈ s.loads, Loaded f load
  lasting : ∀ load ∈ s.loads, ∀ record, lasting record → load.2.Occupied record

variable {s : Scanning} {catalog : Catalog} {lasting : RecordId → Prop}

/-- A search keeps the invariant; a row that is pending may be handed out. -/
theorem Follows.search (h : s.Follows f n catalog lasting)
    (hlasting : ∀ record, lasting record → s.pool.db.Occupied record) {r : Except StorageError Bool}
    (hsearched : HeapCursor.Searched f fuel s.cursor s.pool.db r c' db') {rows rest : List Row}
    (hrows : c'.pending = rows ++ rest) :
    Follows f n catalog lasting ⟨{ s.pool with db := db' }, { c' with pending := rest }, s.given ++ rows,
      s.loads ++ HeapCursor.searched f fuel s.cursor s.pool.db⟩ := by
  have hproper : s.pool.db.catalog.Proper := h.pool.sound.proper
  refine ⟨⟨h.pool.tended.of_spares hsearched.spares, hsearched.sound, hsearched.cuts.catalog.trans h.pool.catalog⟩,
    hsearched.opened.trans h.opened, ?_, ?_, ?_, ?_⟩
  · show List.map Prod.fst (s.loads ++ _) = List.range c'.nextPage
    have happend := List.range'_append_1 (s := 0) (m := s.cursor.nextPage)
      (n := (HeapCursor.searched f fuel s.cursor s.pool.db).length)
    rw [Nat.zero_add] at happend
    rw [List.map_append, h.pages, hsearched.pages, hsearched.place, List.range_eq_range', List.range_eq_range', happend]
  · show (s.given ++ rows) ++ rest = _
    rw [List.append_assoc, ← hrows, hsearched.rows, ← List.append_assoc, h.rows, List.flatMap_append]
  · intro load hload
    rcases List.mem_append.mp hload with hload | hload
    · exact h.loaded load hload
    · exact (hsearched.loads load hload).1
  · intro load hload record hrecord
    rcases List.mem_append.mp hload with hload | hload
    · exact h.lasting load hload record hrecord
    · exact (hlasting record hrecord).of_cutsTo hproper (hsearched.loads load hload).2

/-- One event keeps the invariant. -/
theorem follows_step (h : s.Follows f n catalog lasting) (hf : catalog.file f.id = .ok f)
    (hlasting : ∀ record, lasting record → s.pool.db.Occupied record) {event : ScanEvent} (hevent : event.Proper) :
    (s.step f event).Follows f n catalog lasting := by
  have hregistered : s.pool.db.catalog.file f.id = .ok f := by rw [h.pool.catalog]; exact hf
  cases event with
  | others call =>
    obtain ⟨hpool, hopened, hpages, hrows, hloaded, hlasting⟩ := h
    exact ⟨(Pool.sound_step hpool hevent).1, hopened, hpages, hrows, hloaded, hlasting⟩
  | hasNext fuel =>
    obtain ⟨r, c', db', hout, hsearched, -⟩ := HeapCursor.next_cases h.pool.sound hregistered h.opened fuel
    have hkept := h.search hlasting hsearched (List.nil_append c'.pending).symm
    rw [List.append_nil] at hkept
    rw [step, hout]
    exact hkept
  | next fuel =>
    obtain ⟨r, c', db', -, hsearched, ⟨row, rest, hpending, hout⟩ | ⟨e, hout, -⟩⟩ :=
      HeapCursor.next_cases h.pool.sound hregistered h.opened fuel
    · rw [step, hout]
      exact h.search hlasting hsearched hpending
    · rw [step, hout]
      exact h.search hlasting hsearched rfl

/-- And so do all events. -/
theorem follows_run {events : List ScanEvent} (h : s.Follows f n catalog lasting) (hf : catalog.file f.id = .ok f)
    (hlasting : ∀ record, lasting record → Lasting f events s record) (hevents : ∀ event ∈ events, event.Proper) :
    (run f events s).Follows f n catalog lasting
      ∧ ∀ record, lasting record → (run f events s).pool.db.Occupied record := by
  induction events generalizing s with
  | nil => exact ⟨h, fun record hrecord => hlasting record hrecord _ List.mem_cons_self⟩
  | cons event events ih =>
    refine ih (follows_step h hf ?_ (hevents event List.mem_cons_self)) ?_ ?_
    · intro record hrecord
      exact hlasting record hrecord _ List.mem_cons_self
    · intro record hrecord db hdb
      exact hlasting record hrecord db (List.mem_cons_of_mem _ hdb)
    · intro event hevent
      exact hevents event (List.mem_cons_of_mem _ hevent)

/-- A cursor that was just opened has handed out nothing. -/
theorem follows_opening {pool : Pool} (h : pool.Sound n catalog)
    (hopen : ((HeapCursor.start f).outcome (HeapCursor.closed, pool.db)).1 = .ok ()) :
    (opening f pool).Follows f n catalog lasting := by
  have hstart := HeapCursor.outcome_start (f := f) (show HeapCursor.closed.opened = false from rfl) pool.db
  rw [hstart] at hopen
  rw [opening, hstart]
  by_cases hcount : f.pageCount pool.db.disk = 0
  · rw [if_pos hcount] at hopen
    cases hopen
  · rw [if_neg hcount]
    refine ⟨h, rfl, rfl, rfl, ?_, ?_⟩
    · intro load hload
      cases hload
    · intro load hload
      cases hload

/-! ### What the invariant tells -/

/-- The rows of pages that were loaded one after the other come by page and slot. -/
theorem Follows.pairwise (h : s.Follows f n catalog lasting) :
    (s.given ++ s.cursor.pending).Pairwise Row.Precedes := by
  have hpages : (s.loads.map Prod.fst).Pairwise (· < ·) := by
    rw [h.pages]
    exact List.pairwise_lt_range
  rw [h.rows, List.pairwise_flatMap]
  refine ⟨fun load hload => (h.loaded load hload).pairwise, ?_⟩
  refine (List.pairwise_map.mp hpages).imp_of_mem ?_
  intro load load' hload hload' hlt row hrow row' hrow'
  obtain ⟨slot, hrecord, -⟩ := (h.loaded load hload).stored hrow
  obtain ⟨slot', hrecord', -⟩ := (h.loaded load' hload').stored hrow'
  exact ⟨_, _, hrecord, hrecord', .inl hlt⟩

/-- Where nothing is pending, a row that was there all the time has been handed out, if its page was loaded. -/
theorem Follows.exists_given (h : s.Follows f n catalog lasting) (hpending : s.cursor.pending = [])
    {record : RecordId} (htable : record.page.table = f.id) (hlasting : lasting record)
    (hlt : record.page.number < s.cursor.nextPage) : ∃ row ∈ s.given, row.record = some record := by
  obtain ⟨⟨table, k⟩, slot⟩ := record
  obtain rfl : table = f.id := htable
  have hmem : k ∈ s.loads.map Prod.fst := by
    rw [h.pages]
    exact List.mem_range.mpr hlt
  obtain ⟨⟨k, db⟩, hload, rfl⟩ := List.mem_map.mp hmem
  obtain ⟨row, hrow, hrecord⟩ := (h.loaded _ hload).exists_row (h.lasting _ hload _ hlasting)
  have hgiven : row ∈ s.given ++ s.cursor.pending := by
    rw [h.rows]
    exact List.mem_flatMap.mpr ⟨_, hload, hrow⟩
  rw [hpending, List.append_nil] at hgiven
  exact ⟨row, hgiven, hrecord⟩

/-- A call that failed: the cursor came to a page and was refused it. The pages that it passed before had no rows, so
nothing is lost, and the next call asks for the same page again. -/
structure Stopped (f : HeapFile) (s s' : Scanning) (e : StorageError) : Prop where
  given : s'.given = s.given
  pending : s.cursor.pending = [] ∧ s'.cursor.pending = []
  passed : ∃ passed, s'.loads = s.loads ++ passed ∧ ∀ load ∈ passed, loadedRows f load = []
  refused : HeapCursor.RefusedAt f s'.cursor e s'.pool.db

theorem stopped_of_searched {e : StorageError}
    (hsearched : HeapCursor.Searched f fuel s.cursor s.pool.db (.error e) c' db')
    (hfuel : f.pageCount s.pool.db.disk < fuel) :
    s.Stopped f ⟨{ s.pool with db := db' }, c', s.given, s.loads ++ HeapCursor.searched f fuel s.cursor s.pool.db⟩
      e := by
  obtain ⟨hpending, hrefused⟩ := hsearched.failed e rfl (by omega)
  have hrows := hsearched.rows
  rw [hpending, eq_comm, List.append_eq_nil_iff, List.flatMap_eq_nil_iff] at hrows
  exact ⟨rfl, ⟨hrows.1, hpending⟩, ⟨_, rfl, hrows.2⟩, hrefused⟩

/-- What can be relied on in the state `s` that some events brought an open cursor to. -/
structure Faithful (f : HeapFile) (events : List ScanEvent) (start s : Scanning) : Prop where
  /-- Rows are handed out by page and slot. -/
  increasing : s.given.Pairwise Row.Precedes
  /-- No row is handed out twice. -/
  once : (s.given.map Row.record).Nodup
  /-- Pages are loaded in order, each of them once. -/
  pages : s.loads.map Prod.fst = List.range s.cursor.nextPage
  /-- Every row is one that was stored at its address when the cursor loaded the page. -/
  stored : ∀ row ∈ s.given, ∃ k slot db, (k, db) ∈ s.loads ∧ row.record = some ⟨⟨f.id, k⟩, slot⟩
    ∧ db.store.row? ⟨⟨f.id, k⟩, slot⟩ = some row.fields
  /-- No row of a loaded page is lost: what was not handed out yet is pending. -/
  kept : s.given ++ s.cursor.pending = s.loads.flatMap (loadedRows f)
  /-- A call that fails, fails at a page that was refused. -/
  failed : ∀ fuel e, f.pageCount s.pool.db.disk < fuel →
    ((HeapCursor.hasNext f fuel).outcome (s.cursor, s.pool.db)).1 = .error e →
    s.Stopped f (s.step f (.hasNext fuel)) e
  /-- So it is if a row was asked for, unless there are no more rows. -/
  failedNext : ∀ fuel e, f.pageCount s.pool.db.disk < fuel →
    ((HeapCursor.next f fuel).outcome (s.cursor, s.pool.db)).1 = .error e →
    s.Stopped f (s.step f (.next fuel)) e
      ∨ e = .noMoreRows ∧ ((HeapCursor.hasNext f fuel).outcome (s.cursor, s.pool.db)).1 = .ok false
  /-- When there are no more rows, every row that was there all the time has been handed out. -/
  complete : ∀ fuel, ((HeapCursor.hasNext f fuel).outcome (s.cursor, s.pool.db)).1 = .ok false →
    ∀ record : RecordId, record.page.table = f.id → Lasting f events start record →
    ∃ row ∈ s.given, row.record = some record

/-- A cursor that is opened over a registered table is faithful. -/
theorem faithful_of_follows {start : Scanning} {events : List ScanEvent} (hf : catalog.file f.id = .ok f)
    (h : start.Follows f n catalog (Lasting f events start)) (hevents : ∀ event ∈ events, event.Proper) :
    Faithful f events start (run f events start) := by
  obtain ⟨hrun, hoccupied⟩ := follows_run h hf (fun _ hlasting => hlasting) hevents
  generalize run f events start = s at hrun hoccupied
  have hregistered : s.pool.db.catalog.file f.id = .ok f := by rw [hrun.pool.catalog]; exact hf
  have hcases := HeapCursor.next_cases hrun.pool.sound hregistered hrun.opened
  have hincreasing := (List.pairwise_append.mp hrun.pairwise).1
  constructor
  · exact hincreasing
  · exact List.pairwise_map.mpr (hincreasing.imp Row.Precedes.record_ne)
  · exact hrun.pages
  · intro row hrow
    have hmem : row ∈ s.loads.flatMap (loadedRows f) := by
      rw [← hrun.rows]
      exact List.mem_append_left _ hrow
    obtain ⟨⟨k, db⟩, hload, hrow⟩ := List.mem_flatMap.mp hmem
    obtain ⟨slot, hrecord, hstored⟩ := (hrun.loaded _ hload).stored hrow
    exact ⟨k, slot, db, hload, hrecord, hstored⟩
  · exact hrun.rows
  · intro fuel e hfuel he
    obtain ⟨r, c', db', hout, hsearched, -⟩ := hcases fuel
    rw [hout] at he
    obtain rfl : r = .error e := he
    rw [step, hout]
    exact stopped_of_searched hsearched hfuel
  · intro fuel e hfuel he
    obtain ⟨r, c', db', hout, hsearched, ⟨row, rest, -, hnext⟩ | ⟨e', hnext, hwhy⟩⟩ := hcases fuel
    · rw [hnext] at he
      cases he
    · rw [hnext] at he
      cases he
      rcases hwhy with rfl | ⟨rfl, rfl⟩
      · left
        rw [step, hnext]
        have hstopped := stopped_of_searched hsearched hfuel
        rw [← List.append_nil s.given] at hstopped
        exact hstopped
      · exact .inr ⟨rfl, by rw [hout]⟩
  · intro fuel hend record htable hlasting
    obtain ⟨r, c', db', hout, hsearched, -⟩ := hcases fuel
    rw [hout] at hend
    obtain ⟨hpending, hle⟩ := hsearched.ended hend
    have hlt := (hoccupied record hlasting).lt_pageCount hregistered htable
    have hended := hrun.search hoccupied hsearched (List.nil_append c'.pending).symm
    obtain ⟨row, hrow, hrecord⟩ := hended.exists_given hpending htable hlasting (Nat.lt_of_lt_of_le hlt hle)
    rw [List.append_nil] at hrow
    exact ⟨row, hrow, hrecord⟩

/-- A cursor that is opened over a registered table hands out rows by address, each as it was stored when its page was
loaded and none of them twice, whatever others store, remove, hold or write meanwhile. A call that fails loses nothing,
and at the end no row that was there all the time is missing. -/
theorem faithful_run {start : Database} (hcache : start.cache = PageCache.ofSize n) (hproper : start.catalog.Proper)
    (hf : start.catalog.file f.id = .ok f) {before : List PoolCall} (hbefore : ∀ call ∈ before, call.Proper)
    (hopen : ((HeapCursor.start f).outcome (HeapCursor.closed, (Pool.run before ⟨start, []⟩).db)).1 = .ok ())
    {events : List ScanEvent} (hevents : ∀ event ∈ events, event.Proper) :
    Faithful f events (opening f (Pool.run before ⟨start, []⟩))
      (run f events (opening f (Pool.run before ⟨start, []⟩))) := by
  obtain ⟨hpool, -⟩ := Pool.sound_run (Pool.sound_ofSize hcache hproper) hbefore
  exact faithful_of_follows hf (follows_opening hpool hopen) hevents

open CacheCall (notes notesFile note)

/-- A note is handed out, and the next one refused because a caller holds the only frame.  The first note is removed,
and another one stored in its place, where the cursor has been already. -/
def liveNotes : List ScanEvent :=
  [.others (.cache (note "second")), .others (.keep ⟨notesFile.id, 0⟩), .next 9, .hasNext 9,
    .others (.cache (.delete ⟨0⟩ ⟨notesFile.schema, [.str "first"], some ⟨⟨notesFile.id, 0⟩, 0⟩⟩)),
    .others (.cache (note "third")), .others (.release ⟨⟨notesFile.id, 0⟩, 2⟩), .next 9]

theorem faithful_run_notes :
    let start := opening notesFile (Pool.run [.cache (note "first")] ⟨notes 1, []⟩)
    Faithful notesFile liveNotes start (run notesFile liveNotes start) :=
  faithful_run rfl (CacheCall.notes_proper 1) rfl (by decide) (by decide +kernel) (by decide)

example :
    let s := run notesFile liveNotes (opening notesFile (Pool.run [.cache (note "first")] ⟨notes 1, []⟩))
    s.given.map Row.fields = [[.str "first"], [.str "second"]] := by
  decide +kernel

end Scanning

end RelStore
