/-
How many pages a table has.

The file of a table grows when a row finds no empty cell, and nothing makes it shorter.  So its length tells the greatest
number of rows that the table ever had.

* `TableContents.Regular` — all pages can be read and have the same number of cells, so that empty cells tell how many
  rows there are (`TableContents.length_rowsFrom_add_empties`);
* `TableContents.Loosens` — what becomes of the pages when texts are cut (`TableContents.CutTo.loosens`) or a row is taken
  out (`TableContents.loosens_onPage`);
* `TableContents.Packed` — the pages are just enough for some number of rows, and there are no more rows than that.  A row
  that is stored keeps it so, for a number that it raises only if there were never so many rows
  (`TableContents.Packed.stored`);
* `Pool.Smooth` — calls that drop no page, and are not refused a row for the table;
* `Pool.alters_step` — what such a call does to the pages of the table;
* `Pool.length_le_step` — no call whatever makes the table shorter;
* `Pool.packed_run` — the pages are just enough for the greatest number of rows so far, at every moment of a run;
* `Pool.pageCount_eq_ceilDiv_peak` — so the length of the file tells that number.

Design notes.  Rows are counted by the cells that are left: what loosens the pages of a table, and what stores a row,
is then told of `TableContents.empties` alone.
-/
import Mathlib.Algebra.Order.Floor.Div
import Mathlib.Data.Nat.SuccPred
import RelStore.Proofs.Store.Refusals
import RelStore.Proofs.Query.FirstFit

namespace RelStore

open Page (Cells cut fillFirst)
open Source (scanRows)
open TableContents (room)

/-! ### Pages that are just enough -/

namespace Page

/-- Cutting texts frees no cell. -/
theorem count_cut (cells : Cells) : (cut cells).count none = cells.count none := by
  rw [cut, List.count_eq_countP, List.count_eq_countP, List.countP_map]
  refine List.countP_congr fun cell _ => ?_
  cases cell <;> simp

/-- Emptying a cell takes no empty one away. -/
theorem count_le_count_set (cells : Cells) (slot : Nat) : cells.count none ≤ (cells.set slot none).count none := by
  by_cases hlt : slot < cells.length
  · rw [List.count_set hlt]
    by_cases hcell : cells[slot] = none
    · have : 0 < cells.count none := List.count_pos_iff.mpr (hcell ▸ List.getElem_mem hlt)
      simp only [hcell, beq_self_eq_true, if_true]
      omega
    · simp [hcell]
  · rw [List.set_eq_of_length_le (Nat.not_lt.mp hlt)]

theorem length_fillFirst (fields : List Field) (cells : Cells) : (fillFirst fields cells).length = cells.length := by
  rw [fillFirst]
  split
  · exact List.length_set
  · rfl

end Page

namespace TableContents

variable {pages a b : TableContents} {slots peak n : Nat} {fields : List Field}

/-- All pages can be read, and have the given number of cells. -/
def Regular (slots : Nat) (pages : TableContents) : Prop :=
  ∀ page ∈ pages, ∃ cells : Cells, page = .ok cells ∧ cells.length = slots

theorem length_pageRows_add_count (schema : Schema) (page : PageId) (cells : Cells) :
    (pageRows schema page cells).length + cells.count none = cells.length := by
  have hrows : (pageRows schema page cells).length = cells.countP Option.isSome := by
    rw [pageRows, List.length_filterMap_eq_countP]
    conv_rhs => rw [← List.zipIdx_map_fst 0 cells, List.countP_map]
    refine List.countP_congr fun p _ => ?_
    simp
  rw [hrows, List.length_eq_countP_add_countP Option.isSome, List.count_eq_countP]
  congr 1
  refine List.countP_congr fun cell _ => ?_
  cases cell <;> simp

/-- Every cell is empty or has a row. -/
theorem length_rowsFrom_add_empties (h : Regular slots pages) (schema : Schema) (table : TableId) (first : Nat) :
    (rowsFrom schema table first pages).length + empties pages = pages.length * slots := by
  induction pages generalizing first with
  | nil => simp [rowsFrom, empties]
  | cons page pages ih =>
    obtain ⟨⟨cells, rfl, hcells⟩, htail⟩ := List.forall_mem_cons.mp h
    have hpage := length_pageRows_add_count schema ⟨table, first⟩ cells
    have hrest := ih htail (first + 1)
    rw [rowsFrom, empties, List.length_append, List.length_cons, Nat.succ_mul]
    omega

/-- The pages of a table when no row was added: as many, with as many cells, and no fewer empty ones. -/
structure Loosens (a b : TableContents) : Prop where
  length : b.length = a.length
  regular : ∀ {slots}, Regular slots a → Regular slots b
  empties : a.empties ≤ b.empties

theorem Loosens.refl (a : TableContents) : a.Loosens a :=
  ⟨rfl, id, Nat.le_refl _⟩

theorem Loosens.trans {c : TableContents} (h : a.Loosens b) (h' : b.Loosens c) : a.Loosens c :=
  ⟨h'.length.trans h.length, fun ha => h'.regular (h.regular ha), Nat.le_trans h.empties h'.empties⟩

theorem CutTo.loosens (h : a.CutTo b) : a.Loosens b := by
  induction a generalizing b with
  | nil =>
    obtain rfl := List.length_eq_zero_iff.mp h.1
    exact .refl []
  | cons page a ih =>
    obtain ⟨page', tail, rfl, hpage, htail⟩ := h.exists_cons
    obtain ⟨hlength, hregular, hempties⟩ := ih htail
    refine ⟨h.1, fun hcons => ?_, ?_⟩
    · obtain ⟨⟨cells, rfl, hcells⟩, hrest⟩ := List.forall_mem_cons.mp hcons
      refine List.forall_mem_cons.mpr ⟨?_, hregular hrest⟩
      rcases hpage with rfl | rfl
      · exact ⟨cells, rfl, hcells⟩
      · exact ⟨cut cells, rfl, by rw [cut, List.length_map, hcells]⟩
    · rcases hpage with rfl | rfl
      · cases page' with
        | error e => exact hempties
        | ok cells => exact Nat.add_le_add_left hempties _
      · cases page with
        | error e => exact hempties
        | ok cells => exact Nat.add_le_add (Nat.le_of_eq (Page.count_cut cells).symm) hempties

/-- A row is taken out. -/
theorem loosens_onPage (pages : TableContents) (n slot : Nat) : pages.Loosens (pages.onPage n (·.set slot none)) := by
  refine ⟨List.length_modify .., fun h => Store.each_onPage h ?_, ?_⟩
  · rintro _ ⟨cells, rfl, hcells⟩
    exact ⟨cells.set slot none, rfl, by rw [List.length_set, hcells]⟩
  · induction pages generalizing n with
    | nil => exact Nat.zero_le _
    | cons page pages ih =>
      cases page with
      | error e =>
        cases n with
        | zero => exact Nat.le_refl _
        | succ n => exact ih n
      | ok cells =>
        cases n with
        | zero => exact Nat.add_le_add_right (Page.count_le_count_set cells slot) _
        | succ n => exact Nat.add_le_add_left (ih n) _

/-- Where a row goes behind the last page, every cell is taken, and the row takes one of a new page. -/
theorem empties_of_full (hslots : 0 < slots) (hroom : room pages = .ok pages.length) (fields : List Field) :
    empties pages = 0 ∧ empties (stored slots fields pages) + 1 = slots := by
  induction pages with
  | nil =>
    have hmem : none ∈ List.replicate slots (none : Option (List Field)) :=
      List.mem_replicate.mpr ⟨Nat.ne_of_gt hslots, rfl⟩
    refine ⟨rfl, (Page.count_fillFirst hmem fields).trans ?_⟩
    exact List.count_replicate_self
  | cons page pages ih =>
    cases page with
    | error e => cases hroom
    | ok cells =>
      obtain ⟨-, hzero⟩ | ⟨hmem, k, hrest, hk⟩ := room_cons_eq_ok hroom
      · cases hzero
      · cases hk
        rw [stored_of_not_mem hmem, empties, empties, List.count_eq_zero.mpr hmem, Nat.zero_add, Nat.zero_add]
        exact ih hrest

theorem length_le_grown (slots n : Nat) (pages : TableContents) : pages.length ≤ (grown slots n pages).length := by
  rw [grown]
  split
  · exact Nat.le_refl _
  · rw [List.length_append]
    exact Nat.le_add_right ..

theorem length_stored_of_full (hroom : room pages = .ok pages.length) :
    (stored slots fields pages).length = pages.length + 1 := by
  rw [stored_eq_onPage hroom, grown_of_le (Nat.le_refl _), onPage, List.length_modify, List.length_append,
    List.length_singleton]

/-- The pages are just enough for `peak` rows, and there are no more rows than that. -/
structure Packed (slots peak : Nat) (pages : TableContents) : Prop where
  regular : Regular slots pages
  enough : peak ≤ pages.length * slots
  tight : pages.length * slots < peak + slots
  few : pages.length * slots ≤ peak + empties pages

namespace Packed

theorem length_eq (h : Packed slots peak pages) : pages.length = peak ⌈/⌉ slots := by
  have hslots : 0 < slots := by
    have := h.enough
    have := h.tight
    omega
  refine Nat.le_antisymm ?_ ?_
  · refine Nat.le_of_lt_succ (Nat.lt_of_mul_lt_mul_right (a := slots) ?_)
    have : peak ≤ slots * (peak ⌈/⌉ slots) := (ceilDiv_le_iff_le_mul hslots).mp (Nat.le_refl _)
    have := h.tight
    rw [Nat.succ_mul, Nat.mul_comm (peak ⌈/⌉ slots)]
    omega
  · rw [ceilDiv_le_iff_le_mul hslots, Nat.mul_comm]
    exact h.enough

theorem rows_le (h : Packed slots peak pages) (schema : Schema) (table : TableId) (first : Nat) :
    (rowsFrom schema table first pages).length ≤ peak := by
  have := length_rowsFrom_add_empties h.regular schema table first
  have := h.few
  omega

theorem nil (hslots : 0 < slots) : Packed slots 0 [] :=
  ⟨List.forall_mem_nil _, Nat.zero_le _, by simpa using hslots, by simp⟩

theorem loosens (h : Packed slots peak a) (hloosens : a.Loosens b) : Packed slots peak b := by
  have := hloosens.empties
  refine ⟨hloosens.regular h.regular, ?_, ?_, ?_⟩ <;> rw [hloosens.length]
  · exact h.enough
  · exact h.tight
  · exact Nat.le_trans h.few (Nat.add_le_add_left this _)

/-- A row that is stored keeps the pages just enough: there is a new page only when every cell is taken, and then there
were never more rows than now. -/
theorem stored (hslots : 0 < slots) (h : Packed slots peak pages) (hroom : room pages = .ok n) (fields : List Field)
    (schema : Schema) (table : TableId) (first : Nat) :
    Packed slots (max peak (rowsFrom schema table first (pages.stored slots fields)).length)
      (pages.stored slots fields) := by
  have hregular : Regular slots (pages.stored slots fields) := by
    refine each_stored h.regular ⟨_, rfl, List.length_replicate⟩ ?_
    rintro _ ⟨cells, rfl, hcells⟩
    exact ⟨fillFirst fields cells, rfl, by rw [Page.length_fillFirst, hcells]⟩
  have hrows := length_rowsFrom_add_empties hregular schema table first
  obtain ⟨-, henough, htight, hfew⟩ := h
  rcases Nat.lt_or_eq_of_le (room_le_length hroom) with hlt | rfl
  · rw [length_stored hroom hlt] at hrows
    refine ⟨hregular, ?_, ?_, ?_⟩ <;> rw [length_stored hroom hlt] <;> omega
  · obtain ⟨hfull, hnew⟩ := empties_of_full hslots hroom fields
    rw [length_stored_of_full hroom, Nat.succ_mul] at hrows
    refine ⟨hregular, ?_, ?_, ?_⟩ <;> rw [length_stored_of_full hroom, Nat.succ_mul] <;> omega

end Packed

end TableContents

/-! ### Calls -/

/-- The call stores a row in the table. -/
def PoolCall.InsertsInto (id : TableId) : PoolCall → Prop
  | cache (.insert _ table _) => table = id
  | _ => False

namespace Store

variable {s : Store} {c : Catalog} {f : HeapFile} {row : Row} {table id : TableId}

/-- A row that is not refused is in the first empty cell. -/
theorem exists_stored_of_insertRow (hf : c.file table = .ok f) (hok : (s.insertRow c table row).1 = .ok ()) :
    ∃ n, room (s table) = .ok n
      ∧ (s.insertRow c table row).2 table = (s table).stored (slotCount f.schema f.pageSize) row.fields := by
  rw [insertRow, hf] at hok ⊢
  by_cases hagrees : row.schema.agrees f.schema = true
  · simp only [hagrees, if_true] at hok ⊢
    cases hroom : room (s table) with
    | error e =>
      rw [hroom] at hok
      cases hok
    | ok n =>
      rw [hroom] at hok
      by_cases htyped : Row.wellTyped f.schema row.fields = true
      · refine ⟨n, rfl, ?_⟩
        simp only [htyped, if_true, put_self, TableContents.stored_eq_onPage hroom]
      · simp only [htyped] at hok
        cases hok
  · simp only [hagrees] at hok
    cases hok

/-- An insertion makes no table shorter, whether or not the row is refused. -/
theorem length_le_insertRow (c : Catalog) (s : Store) (table : TableId) (row : Row) (id : TableId) :
    (s id).length ≤ ((s.insertRow c table row).2 id).length := by
  by_cases hid : id = table
  · subst hid
    rw [insertRow]
    split
    · exact Nat.le_refl _
    · next f _ =>
      split
      · split
        · exact Nat.le_refl _
        · next k _ =>
          have hgrown := TableContents.length_le_grown (slotCount f.schema f.pageSize) k (s id)
          split
          · simp only [put_self, TableContents.onPage, List.length_modify]
            exact hgrown
          · simp only [put_self]
            exact hgrown
      · exact Nat.le_refl _
  · rw [insertRow_of_ne hid]

/-- Of every table a deletion takes out a row at most. -/
theorem loosens_deleteRow (c : Catalog) (s : Store) (row : Row) (id : TableId) :
    (s id).Loosens ((s.deleteRow c row).2 id) := by
  have hsame := TableContents.Loosens.refl (s id)
  rw [deleteRow]
  split
  · exact hsame
  · next record _ =>
    split
    · exact hsame
    · split
      · dsimp only
        by_cases hid : id = record.page.table
        · rw [hid, put_self]
          exact TableContents.loosens_onPage ..
        · rw [put_of_ne _ hid]
          exact hsame
      · exact hsame

end Store

/-- What a call does to the pages of a table: it adds no row to them, or it cuts some texts at most and then stores one. -/
inductive PoolCall.Alters (id : TableId) (slots : Nat) (before after : TableContents) (call : PoolCall) : Prop
  | loosened (hcall : ¬ call.InsertsInto id) (h : before.Loosens after)
  | stored (hcall : call.InsertsInto id) {pages : TableContents} {n : Nat} {fields : List Field}
      (hcut : before.CutTo pages) (hroom : room pages = .ok n) (h : after = pages.stored slots fields)

/-- The pages stay just enough, for the rows that there are now if these are more than ever. -/
theorem PoolCall.Alters.packed {id : TableId} {slots peak : Nat} {before after : TableContents} {call : PoolCall}
    (h : call.Alters id slots before after) (hslots : 0 < slots) (hpacked : before.Packed slots peak) (schema : Schema)
    (table : TableId) (first : Nat) :
    after.Packed slots (max peak (TableContents.rowsFrom schema table first after).length) := by
  cases h with
  | loosened _ hloosens =>
    have hafter := hpacked.loosens hloosens
    rwa [Nat.max_eq_left (hafter.rows_le schema table first)]
  | stored _ hcut hroom hstored =>
    rw [hstored]
    exact (hpacked.loosens hcut.loosens).stored hslots hroom _ schema table first

namespace Pool

variable {pool : Pool} {n k : Nat} {c : Catalog} {f : HeapFile} {call : PoolCall} {calls : List PoolCall}

/-- A call drops no page, and if it stores a row in the table then the row is not refused. -/
def Admits (id : TableId) (pool : Pool) : PoolCall → Prop
  | .cache (.insert txn table row) => table = id → ((Database.insertRow txn table row).outcome pool.db).1 = .ok ()
  | .discard _ => False
  | _ => True

instance (id : TableId) (pool : Pool) : DecidablePred (pool.Admits id)
  | .cache (.insert txn table row) =>
    inferInstanceAs (Decidable (table = id → ((Database.insertRow txn table row).outcome pool.db).1 = .ok ()))
  | .cache (.getPage _) | .cache (.delete ..) | .cache .flush | .cache (.flushPages _) => isTrue trivial
  | .keep _ | .release _ => isTrue trivial
  | .discard _ => isFalse False.elim

/-- A row that is taken out, here or nowhere, leaves more room. -/
theorem loosens_step_delete (h : pool.Sound n c) (txn : TxnId) (row : Row) (id : TableId) :
    (pool.db.store id).Loosens ((pool.step (.cache (.delete txn row))).db.store id) := by
  obtain ⟨r, db', s, hdelete, -, -, hcut, hr⟩ := h.sound.deleteRow txn row
  refine (hcut id).loosens.trans ?_
  rw [step, CacheCall.run, Fallible.snd_outcome_map, hdelete]
  rcases hr with hr | ⟨-, -, hstore⟩
  · rw [show db'.store = (s.deleteRow pool.db.catalog row).2 from congrArg Prod.snd hr]
    exact Store.loosens_deleteRow ..
  · rw [hstore]
    exact TableContents.Loosens.refl _

theorem alters_step (h : pool.Sound n c) (hf : c.file f.id = .ok f) (hcall : call.Proper)
    (hadmits : pool.Admits f.id call) :
    call.Alters f.id (slotCount f.schema f.pageSize) (pool.db.store f.id) ((pool.step call).db.store f.id) := by
  have hquiet : call.Quiet → (pool.db.store f.id).Loosens ((pool.step call).db.store f.id) := fun hcall =>
    (cutTo_step h hcall f.id).loosens
  cases call with
  | keep page => exact .loosened id (hquiet trivial)
  | release hd => exact .loosened id (hquiet trivial)
  | discard page => exact hadmits.elim
  | cache call =>
    cases call with
    | getPage page => exact .loosened id (hquiet trivial)
    | flush => exact .loosened id (hquiet trivial)
    | flushPages txn => exact .loosened id (hquiet trivial)
    | delete txn row => exact .loosened id (loosens_step_delete h txn row _)
    | insert txn table row =>
      obtain ⟨r, db', s, hinsert, -, -, hcut, hr⟩ := h.sound.insertRow txn table hcall
      rw [step, CacheCall.run, Fallible.snd_outcome_map, hinsert]
      by_cases htable : table = f.id
      · -- the row was not refused, so it is where the contents without a cache have it
        have hok := hadmits htable
        rw [hinsert] at hok
        obtain rfl : r = .ok () := hok
        obtain hr | ⟨hrefused, -⟩ := hr
        · rw [show db'.store = (s.insertRow pool.db.catalog table row).2 from congrArg Prod.snd hr]
          rw [← h.catalog, ← htable] at hf
          obtain ⟨k, hroom, hstored⟩ := Store.exists_stored_of_insertRow hf (congrArg Prod.fst hr).symm
          rw [← htable]
          exact .stored rfl (hcut table) hroom hstored
        · cases hrefused
      · refine .loosened htable ((hcut f.id).loosens.trans ?_)
        rcases hr with hr | ⟨-, -, hstore | ⟨slots, k, hstore⟩⟩
        · rw [show db'.store = (s.insertRow pool.db.catalog table row).2 from congrArg Prod.snd hr,
            Store.insertRow_of_ne (Ne.symm htable)]
          exact TableContents.Loosens.refl _
        · rw [hstore]
          exact TableContents.Loosens.refl _
        · rw [hstore, Store.put_of_ne _ (Ne.symm htable)]
          exact TableContents.Loosens.refl _

/-- No call makes a table shorter. -/
theorem length_le_step (h : pool.Sound n c) (hf : c.file f.id = .ok f) (hcall : call.Proper) :
    (pool.db.store f.id).length ≤ ((pool.step call).db.store f.id).length := by
  have hquiet : call.Quiet → (pool.db.store f.id).Loosens ((pool.step call).db.store f.id) := fun hcall =>
    (cutTo_step h hcall f.id).loosens
  cases call with
  | keep page => exact (hquiet trivial).length.ge
  | release hd => exact (hquiet trivial).length.ge
  | discard page =>
    -- a page that is dropped stays in its file
    have hf₀ : pool.db.catalog.file f.id = .ok f := by rw [h.catalog, hf]
    have hf₁ : (pool.step (.discard page)).db.catalog.file f.id = .ok f := hf₀
    rw [Database.length_store hf₀, Database.length_store hf₁]
    exact Nat.le_refl _
  | cache call =>
    cases call with
    | getPage page => exact (hquiet trivial).length.ge
    | flush => exact (hquiet trivial).length.ge
    | flushPages txn => exact (hquiet trivial).length.ge
    | delete txn row => exact (loosens_step_delete h txn row _).length.ge
    | insert txn table row =>
      obtain ⟨r, db', s, hinsert, -, -, hcut, hr⟩ := h.sound.insertRow txn table hcall
      rw [step, CacheCall.run, Fallible.snd_outcome_map, hinsert, ← (hcut f.id).1]
      rcases hr with hr | ⟨-, -, hstore | ⟨slots, k, hstore⟩⟩
      · rw [show db'.store = (s.insertRow pool.db.catalog table row).2 from congrArg Prod.snd hr]
        exact Store.length_le_insertRow ..
      · rw [hstore]
      · rw [hstore]
        by_cases hid : f.id = table
        · rw [hid, Store.put_self]
          exact TableContents.length_le_grown ..
        · rw [Store.put_of_ne _ hid]

/-- A table has as many pages as before and had room if a row was stored, or one page more and a row was stored for which
there was no room. -/
theorem pageCount_step (h : pool.Sound n c) (hf : c.file f.id = .ok f) (hcall : call.Proper)
    (hadmits : pool.Admits f.id call) :
    f.pageCount (pool.step call).db.disk = f.pageCount pool.db.disk
        ∧ (call.InsertsInto f.id → Database.HasRoom f pool.db)
      ∨ f.pageCount (pool.step call).db.disk = f.pageCount pool.db.disk + 1
        ∧ call.InsertsInto f.id ∧ ¬ Database.HasRoom f pool.db := by
  have hafter := (sound_step h hcall).1
  have hf₀ : pool.db.catalog.file f.id = .ok f := by rw [h.catalog, hf]
  have hf₁ : (pool.step call).db.catalog.file f.id = .ok f := by rw [hafter.catalog, hf]
  rw [← Database.length_store hf₁, ← Database.length_store hf₀]
  cases alters_step h hf hcall hadmits with
  | loosened hnot hloosens => exact .inl ⟨hloosens.length, fun hinserts => (hnot hinserts).elim⟩
  | @stored hinserts pages k fields hcut hroom hstored =>
    have hroom₀ : room (pool.db.store f.id) = .ok k := by rw [← hcut.room_eq, hroom]
    rw [Database.hasRoom_iff hf₀ hroom₀, ← Database.length_store hf₀, hstored, ← hcut.1]
    rcases Nat.lt_or_eq_of_le (TableContents.room_le_length hroom) with hlt | rfl
    · exact .inl ⟨TableContents.length_stored hroom hlt, fun _ => hlt⟩
    · exact .inr ⟨TableContents.length_stored_of_full hroom, hinserts, Nat.lt_irrefl _⟩

/-- No call of a run drops a page, or is refused a row for the table. -/
def Smooth (id : TableId) (calls : List PoolCall) (pool : Pool) : Prop :=
  ∀ k, (h : k < calls.length) → (run (calls.take k) pool).Admits id calls[k]

instance (id : TableId) (calls : List PoolCall) (pool : Pool) : Decidable (pool.Smooth id calls) :=
  inferInstanceAs (Decidable (∀ k, (h : k < calls.length) → (run (calls.take k) pool).Admits id calls[k]))

/-- How many rows a scan finds in a table after the first `k` calls. -/
def rowsAfter (f : HeapFile) (calls : List PoolCall) (pool : Pool) (k : Nat) : Nat :=
  (scanRows (run (calls.take k) pool).db.store f f.schema).length

theorem run_take_succ (pool : Pool) (hk : k < calls.length) :
    run (calls.take (k + 1)) pool = (run (calls.take k) pool).step calls[k] := by
  rw [run, List.take_succ_eq_append_getElem hk, List.foldl_append]
  rfl

/-- At every moment of a run the pages are just enough for the greatest number of rows so far. -/
theorem packed_run (h : pool.Sound n c) (hf : c.file f.id = .ok f) (hempty : f.pageCount pool.db.disk = 0)
    (hcalls : ∀ call ∈ calls, call.Proper) (hsmooth : pool.Smooth f.id calls) (hk : k ≤ calls.length) :
    ∃ peak, IsGreatest (pool.rowsAfter f calls '' Set.Iic k) peak
      ∧ ((run (calls.take k) pool).db.store f.id).Packed (slotCount f.schema f.pageSize) peak := by
  have hproper := h.sound.proper
  rw [h.catalog] at hproper
  have hslots := Nat.pos_of_ne_zero (hproper.slotCount_ne_zero hf)
  induction k with
  | zero =>
    have hnil : pool.db.store f.id = [] := by
      have hf₀ : pool.db.catalog.file f.id = .ok f := by rw [h.catalog, hf]
      rw [← List.length_eq_zero_iff, Database.length_store hf₀, hempty]
    have hrows : pool.rowsAfter f calls 0 = 0 := by
      show (scanRows pool.db.store f f.schema).length = 0
      rw [scanRows, hnil]
      rfl
    refine ⟨0, ⟨⟨0, Set.mem_Iic.mpr (Nat.le_refl 0), hrows⟩, ?_⟩, ?_⟩
    · rintro _ ⟨j, hj, rfl⟩
      rw [Nat.le_zero.mp hj, hrows]
    · show TableContents.Packed _ 0 (pool.db.store f.id)
      rw [hnil]
      exact .nil hslots
  | succ k ih =>
    obtain ⟨peak, hpeak, hpacked⟩ := ih (Nat.le_of_succ_le hk)
    have hsound : (run (calls.take k) pool).Sound n c :=
      (sound_run h fun call hcall => hcalls call (List.mem_of_mem_take hcall)).1
    have halters := alters_step hsound hf (hcalls _ (List.getElem_mem hk)) (hsmooth k hk)
    rw [← run_take_succ pool hk] at halters
    refine ⟨max peak (pool.rowsAfter f calls (k + 1)), ?_, halters.packed hslots hpacked _ _ _⟩
    have hIic : Set.Iic (k + 1) = insert (k + 1) (Set.Iic k) := Order.Iic_succ k
    rw [hIic, Set.image_insert_eq, Nat.max_comm]
    exact hpeak.insert _

/-- A table that has no pages has after any calls, none of which drops a page or is refused a row for the table, just
enough pages for the greatest number of rows that it had at any moment.  It gets a page only with a row that is stored
while every cell of the table is taken, and never loses one. -/
theorem pageCount_eq_ceilDiv_peak {start : Database} (hcache : start.cache = PageCache.ofSize n)
    (hproper : start.catalog.Proper) {before : List PoolCall} (hbefore : ∀ call ∈ before, call.Proper)
    (hpool : pool = run before ⟨start, []⟩) (hf : start.catalog.file f.id = .ok f)
    (hempty : f.pageCount pool.db.disk = 0) (hcalls : ∀ call ∈ calls, call.Proper)
    (hsmooth : pool.Smooth f.id calls) :
    (∃ peak, IsGreatest (pool.rowsAfter f calls '' Set.Iic calls.length) peak
        ∧ f.pageCount (run calls pool).db.disk = peak ⌈/⌉ slotCount f.schema f.pageSize)
      ∧ ∀ k, (hk : k < calls.length) →
        let was := run (calls.take k) pool
        let now := run (calls.take (k + 1)) pool
        f.pageCount now.db.disk = f.pageCount was.db.disk
            ∧ (calls[k].InsertsInto f.id → Database.HasRoom f was.db)
          ∨ f.pageCount now.db.disk = f.pageCount was.db.disk + 1
            ∧ calls[k].InsertsInto f.id ∧ ¬ Database.HasRoom f was.db := by
  have hsound : pool.Sound n start.catalog := by
    rw [hpool]
    exact (sound_run (sound_ofSize hcache hproper) hbefore).1
  have hrun : ∀ k, (run (calls.take k) pool).Sound n start.catalog := fun k =>
    (sound_run hsound fun call hcall => hcalls call (List.mem_of_mem_take hcall)).1
  constructor
  · obtain ⟨peak, hpeak, hpacked⟩ := packed_run hsound hf hempty hcalls hsmooth (Nat.le_refl _)
    have hlength := hpacked.length_eq
    rw [List.take_length] at hlength
    refine ⟨peak, hpeak, ?_⟩
    have hf' : (run calls pool).db.catalog.file f.id = .ok f := by
      rw [(sound_run hsound hcalls).1.catalog, hf]
    rw [← hlength, Database.length_store hf']
  · intro k hk was now
    have hstep := pageCount_step (hrun k) hf (hcalls _ (List.getElem_mem hk)) (hsmooth k hk)
    rwa [← run_take_succ pool hk] at hstep

end Pool

/-- Four digits on two pages, of which two are deleted and others are stored later, with one frame for both pages. -/
def thinnedDigits : List PoolCall :=
  [digit 1, digit 2, digit 3, digit 4, undigit 0 1, undigit 1 0, digit 5, .cache .flush,
    .cache (.getPage ⟨digitsFile.id, 1⟩), digit 6]

/-- The pages are those for four digits, and a digit goes where one was deleted. -/
theorem pageCount_eq_ceilDiv_peak_thinnedDigits :
    let pool : Pool := ⟨digits 1, []⟩
    IsGreatest (pool.rowsAfter digitsFile thinnedDigits '' Set.Iic thinnedDigits.length) 4
      ∧ digitsFile.pageCount (Pool.run thinnedDigits pool).db.disk = 2
      ∧ Database.HasRoom digitsFile (Pool.run (thinnedDigits.take 6) pool).db := by
  intro pool
  have hpool : pool = Pool.run [] ⟨digits 1, []⟩ := rfl
  have hcalls : ∀ call ∈ thinnedDigits, call.Proper := by decide
  have hsmooth : pool.Smooth digitsFile.id thinnedDigits := by decide +kernel
  obtain ⟨⟨peak, hpeak, hcount⟩, hsteps⟩ := Pool.pageCount_eq_ceilDiv_peak rfl (digits_proper 1)
    (List.forall_mem_nil _) hpool rfl (by decide +kernel) hcalls hsmooth
  have hfour : IsGreatest (pool.rowsAfter digitsFile thinnedDigits '' Set.Iic thinnedDigits.length) 4 := by
    refine ⟨⟨4, by decide, by decide +kernel⟩, ?_⟩
    rintro _ ⟨k, hk, rfl⟩
    have hrows : ∀ k < 11, pool.rowsAfter digitsFile thinnedDigits k ≤ 4 := by decide +kernel
    exact hrows k (Nat.lt_succ_of_le hk)
  have htwo : 4 ⌈/⌉ slotCount digitsFile.schema digitsFile.pageSize = 2 := by decide +kernel
  rw [hpeak.unique hfour, htwo] at hcount
  refine ⟨hfour, hcount, ?_⟩
  have hpages : digitsFile.pageCount (Pool.run (thinnedDigits.take 7) pool).db.disk
      = digitsFile.pageCount (Pool.run (thinnedDigits.take 6) pool).db.disk := by decide +kernel
  obtain ⟨-, hroom⟩ | ⟨hgrown, -⟩ := hsteps 6 (by decide)
  · exact hroom rfl
  · rw [hpages] at hgrown
    exact absurd hgrown (Nat.ne_of_lt (Nat.lt_succ_self _))

end RelStore
