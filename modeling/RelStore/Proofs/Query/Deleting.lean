/-
Deletions of the rows that filters over a scan hand out.

* `Row.vacated` — the contents without a row, as its deletion leaves them behind (`Row.fieldsAt_foldl_vacated`);
* `Standing` — the invariant of the pass: the rows that are still to be deleted stand in the table, at different places;
* `changesBehind_delete` — each deletion keeps it, and does nothing to the pages that the scan has not come to;
* `Database.Without` — what is left of a table when all rows that some predicate accepts are gone;
* `Plan.readTwice_delete` — a deletion leaves just this behind and answers how many rows there were; started over, it
  finds none.

Design notes.  The scan hands out rows of a copy of their page, so the row that is deleted is still the one that was
read only because every deletion so far was one of another place.
-/
import RelStore.Proofs.Query.Passes
import RelStore.Proofs.Query.Places

namespace RelStore

open Database (Ready)
open TableContents (rowsFrom)
open HeapCursor (accepted)

variable {c : Catalog} {f : HeapFile} {schema : Schema} {accepts : List Field → Bool} {pages : TableContents}
  {n slot : Nat}

/-! ### One row after the other -/

namespace TableContents

/-- Where a cell is emptied there is no row any more, and elsewhere nothing changes. -/
theorem fieldsAt_onPage_set (pages : TableContents) (n slot m i : Nat) :
    fieldsAt (pages.onPage n (·.set slot none)) m i
      = if n = m ∧ slot = i then none else pages.fieldsAt m i := by
  rw [fieldsAt, fieldsAt, onPage, List.getElem?_modify]
  by_cases hpage : n = m
  · subst hpage
    rcases hm : pages[n]? with _ | e | cells
    · simp
    · simp [Except.map]
    · simp only [if_true, Option.map_eq_map, Option.map_some, Except.map, List.getElem?_set, true_and]
      by_cases hslot : slot = i
      · rw [if_pos hslot, if_pos hslot]
        split <;> rfl
      · rw [if_neg hslot, if_neg hslot]
  · simp [hpage]

end TableContents

/-- The contents without a row. -/
def Row.vacated (pages : TableContents) (x : Row) : TableContents :=
  match x.record with
  | some record => pages.onPage record.page.number (·.set record.slot none)
  | none => pages

theorem Row.vacated_eq {x : Row} (hrecord : x.record = some ⟨⟨f.id, n⟩, slot⟩) :
    x.vacated pages = pages.onPage n (·.set slot none) := by
  rw [vacated, hrecord]

/-- The rows stand in the table, at different places. -/
structure Standing (f : HeapFile) (pages : TableContents) (rest : List Row) : Prop where
  usable : pages.Usable
  place : ∀ x ∈ rest, ∃ n slot fields, x.record = some ⟨⟨f.id, n⟩, slot⟩ ∧ pages.fieldsAt n slot = some fields
  apart : rest.Pairwise fun x y => x.record ≠ y.record

namespace Standing

variable {x : Row} {rest : List Row}

/-- The accepted rows of a table stand in it. -/
theorem of_accepted (husable : pages.Usable) :
    Standing f pages (accepted f schema accepts pages HeapCursor.first) := by
  refine ⟨husable, fun x hx => ?_, ?_⟩
  · obtain ⟨n, slot, fields, hfields, -, rfl⟩ := (TableContents.mem_accepted_iff husable).mp hx
    exact ⟨n, slot, fields, rfl, hfields⟩
  · have hreadable : ∀ page ∈ pages, Readable page := fun page hpage => (husable.2 page hpage).1
    exact ((TableContents.pairwise_rowsFrom hreadable).filter _).imp Row.Precedes.record_ne

/-- An emptied cell keeps a table usable. -/
theorem usable_onPage_set (husable : pages.Usable) (n slot : Nat) :
    TableContents.Usable (pages.onPage n (·.set slot none)) := by
  refine ⟨fun hnil => husable.1 ?_, fun page hpage => ⟨?_, ?_⟩⟩
  · have hlen := congrArg List.length hnil
    rw [TableContents.onPage, List.length_modify] at hlen
    exact List.length_eq_zero_iff.mp hlen
  · exact Store.each_onPage (fun page hpage => (husable.2 page hpage).1) (fun _ h => Store.readable_map h _) page hpage
  · exact Store.each_onPage (fun page hpage => (husable.2 page hpage).2) (fun page => Store.fits_set_none page slot)
      page hpage

/-- The others still stand when a row is gone. -/
theorem vacated (h : Standing f pages (x :: rest)) : Standing f (x.vacated pages) rest := by
  obtain ⟨n, slot, -, hrecord, -⟩ := h.place x List.mem_cons_self
  obtain ⟨hne, hapart⟩ := List.pairwise_cons.mp h.apart
  rw [Row.vacated_eq hrecord]
  refine ⟨usable_onPage_set h.usable n slot, fun y hy => ?_, hapart⟩
  obtain ⟨m, i, fields, hrecord', hfields⟩ := h.place y (List.mem_cons_of_mem _ hy)
  refine ⟨m, i, fields, hrecord', ?_⟩
  rw [TableContents.fieldsAt_onPage_set, if_neg, hfields]
  rintro ⟨rfl, rfl⟩
  exact hne y hy (hrecord.trans hrecord'.symm)

end Standing

/-- A row that goes changes its own page. -/
theorem staysBehind_vacated : Source.StaysBehind f Row.vacated (Standing f) := by
  constructor
  · exact fun hgood => hgood.usable
  · intro pages x rest hgood
    obtain ⟨n, slot, -, hrecord, -⟩ := hgood.place x List.mem_cons_self
    rw [Row.vacated_eq hrecord, TableContents.onPage, List.length_modify]
  · intro pages x rest n slot hgood hrecord
    rw [Row.vacated_eq hrecord]
    exact TableContents.drop_onPage (Nat.lt_succ_self n)
  · exact Standing.vacated

/-- Deletions change the page of the row, which the scan has left. -/
theorem changesBehind_delete (hf : c.file f.id = .ok f) (s : Store) (txn : TxnId) :
    Source.ChangesBehind c s f (Database.deleteRow txn) Row.vacated (Standing f) := by
  refine ⟨staysBehind_vacated, fun {pages x rest} hgood db hdb => ?_⟩
  obtain ⟨n, slot, fields, hrecord, hfields⟩ := hgood.place x List.mem_cons_self
  obtain ⟨cells, hpage, hcell⟩ := TableContents.fieldsAt_eq_some_iff.mp hfields
  have hput : s.put f.id pages f.id = pages := Store.put_self ..
  obtain ⟨db', hout, hdb'⟩ := hdb.deleteRow hf (by rw [hput]; exact fun page hpage => (hgood.usable.2 page hpage).2)
    txn hrecord (by rw [hput]; exact hpage) hcell
  rw [hput, Store.put_put] at hdb'
  exact ⟨db', hout, by rw [Row.vacated_eq hrecord]; exact hdb'⟩

/-- After some deletions, the rows that were not deleted are left. -/
theorem Row.fieldsAt_foldl_vacated {rest : List Row}
    (hplace : ∀ x ∈ rest, ∃ n slot, x.record = some ⟨⟨f.id, n⟩, slot⟩) :
    TableContents.fieldsAt (rest.foldl Row.vacated pages) n slot
      = if ∃ x ∈ rest, x.record = some ⟨⟨f.id, n⟩, slot⟩ then none else pages.fieldsAt n slot := by
  induction rest generalizing pages with
  | nil => simp
  | cons x rest ih =>
    obtain ⟨m, i, hrecord⟩ := hplace x List.mem_cons_self
    rw [List.foldl_cons, ih fun y hy => hplace y (List.mem_cons_of_mem _ hy), Row.vacated_eq hrecord,
      TableContents.fieldsAt_onPage_set]
    by_cases hrest : ∃ x ∈ rest, x.record = some ⟨⟨f.id, n⟩, slot⟩
    · rw [if_pos hrest, if_pos]
      obtain ⟨y, hy, hat⟩ := hrest
      exact ⟨y, List.mem_cons_of_mem _ hy, hat⟩
    · rw [if_neg hrest]
      by_cases hx : m = n ∧ i = slot
      · rw [if_pos hx, if_pos]
        exact ⟨x, List.mem_cons_self, by rw [hrecord, hx.1, hx.2]⟩
      · rw [if_neg hx, if_neg]
        rintro ⟨y, hy, hat⟩
        rcases List.mem_cons.mp hy with rfl | hy
        · rw [hrecord] at hat
          cases hat
          exact hx ⟨rfl, rfl⟩
        · exact hrest ⟨y, hy, hat⟩

namespace TableContents

/-- The contents without the rows that are accepted. -/
def without (f : HeapFile) (schema : Schema) (accepts : List Field → Bool) (pages : TableContents) : TableContents :=
  (accepted f schema accepts pages HeapCursor.first).foldl Row.vacated pages

/-- Every row that is not accepted is where it was. -/
theorem fieldsAt_without (husable : pages.Usable) (n slot : Nat) :
    (pages.without f schema accepts).fieldsAt n slot
      = (pages.fieldsAt n slot).filter fun fields => !accepts fields := by
  have hplace : ∀ x ∈ accepted f schema accepts pages HeapCursor.first,
      ∃ n slot, x.record = some ⟨⟨f.id, n⟩, slot⟩ := by
    intro x hx
    obtain ⟨n, slot, -, -, -, rfl⟩ := (mem_accepted_iff husable).mp hx
    exact ⟨n, slot, rfl⟩
  have hgone : (∃ x ∈ accepted f schema accepts pages HeapCursor.first, x.record = some ⟨⟨f.id, n⟩, slot⟩)
      ↔ ∃ fields, pages.fieldsAt n slot = some fields ∧ accepts fields = true := by
    constructor
    · rintro ⟨x, hx, hrecord⟩
      obtain ⟨m, i, fields, hfields, haccepts, rfl⟩ := (mem_accepted_iff husable).mp hx
      cases hrecord
      exact ⟨fields, hfields, haccepts⟩
    · rintro ⟨fields, hfields, haccepts⟩
      exact ⟨_, (mem_accepted_iff husable).mpr ⟨n, slot, fields, hfields, haccepts, rfl⟩, rfl⟩
  rw [without, Row.fieldsAt_foldl_vacated hplace]
  simp only [hgone]
  cases hfields : pages.fieldsAt n slot with
  | none => simp
  | some fields => cases haccepts : accepts fields <;> simp [Option.filter, haccepts]

/-- So none of the rows that are left is accepted. -/
theorem accepted_without (husable : pages.Usable) :
    accepted f schema accepts (pages.without f schema accepts) HeapCursor.first = [] := by
  refine List.eq_nil_iff_forall_not_mem.mpr fun row hrow => ?_
  obtain ⟨n, slot, fields, hfields, haccepts, -⟩ :=
    (mem_accepted_iff (staysBehind_vacated.foldl (.of_accepted husable)).1).mp hrow
  rw [← without, fieldsAt_without husable, Option.filter_eq_some_iff, haccepts] at hfields
  exact absurd hfields.2 Bool.false_ne_true

end TableContents

/-! ### Deletions -/

namespace Database

/-- What is left of a table when all rows that are accepted are gone. -/
structure Without (accepts : List Field → Bool) (f : HeapFile) (db db' : Database) : Prop where
  /-- No page came or went. -/
  pageCount : f.pageCount db'.disk = f.pageCount db.disk
  /-- The accepted rows are gone, and every other row stands where it stood. -/
  rows : ∀ record : RecordId, record.page.table = f.id →
    db'.store.row? record = (db.store.row? record).filter fun fields => !accepts fields
  /-- In other tables nothing happens, but that long texts may be cut. -/
  others : ∀ id, id ≠ f.id → (db.store id).CutTo (db'.store id)

theorem Steady.without {db db' : Database} (h : Ready c db) (hf : c.file f.id = .ok f)
    (husable : (db.store f.id).Usable)
    (hdb' : Steady c (db.store.put f.id ((db.store f.id).without f schema accepts)) db') :
    db.Without accepts f db' := by
  have hstanding : Standing f (db.store f.id) (accepted f schema accepts (db.store f.id) HeapCursor.first) :=
    .of_accepted husable
  obtain ⟨husable', hlen⟩ := staysBehind_vacated.foldl hstanding
  have hfits : ∀ page ∈ db.store.put f.id ((db.store f.id).without f schema accepts) f.id, Fits page := by
    rw [Store.put_self]
    exact fun page hpage => (husable'.2 page hpage).2
  constructor
  · rw [hdb'.pageCount_eq hf hfits, Store.put_self, h.steady.pageCount_eq hf fun page hpage => (husable.2 page hpage).2]
    exact hlen
  · rintro ⟨⟨_, n⟩, slot⟩ rfl
    show (db'.store f.id).fieldsAt n slot = _
    rw [hdb'.store_eq hfits, Store.put_self, TableContents.fieldsAt_without husable]
    rfl
  · intro id hid
    have hcut := hdb'.store id
    rwa [Store.put_of_ne _ hid] at hcut

end Database

namespace Plan

variable {target : ScanTarget}

open Source (Enough)

/-- A deletion over filters over a scan of a usable table, in a cache with a frame that nobody holds anything of:
it removes the rows that all predicates accept on the table as it is, and answers how many these are, or that they are
too many for a number. Started over it finds none, and changes nothing. -/
theorem readTwice_delete {n : Nat} (hn : 0 < n) {start : Database} (hcache : start.cache = PageCache.ofSize n)
    (hproper : start.catalog.Proper) {calls : List PoolCall} (hcalls : ∀ call ∈ calls, call.Proper)
    (hheld : (Pool.run calls ⟨start, []⟩).held = []) (hscan : (Plan.scan target f schema).Built start.catalog)
    (husable : ((Pool.run calls ⟨start, []⟩).db.store f.id).Usable) (qs : List Predicate) (txn : TxnId) :
    let db := (Pool.run calls ⟨start, []⟩).db
    let child := sifted qs (.scan target f schema)
    ∃ m, ∀ fuel, m ≤ fuel → ∃ db₁ db₂,
      (Plan.delete txn child).readTwice fuel db
        = (((countRow .delete (child.meaning db.store).length).map ([·]), db₁),
          (.ok [⟨countSchema, [.int 0], none⟩], db₂))
      ∧ db.Without (fun fields => qs.all (·.admits fields)) f db₁ ∧ db₂.store f.id = db₁.store f.id := by
  intro db child
  have hready : Ready start.catalog db := Pool.ready_run hn hcache hproper hcalls hheld
  have hf : start.catalog.file f.id = .ok f := by
    rw [hproper.id_of_file hscan.1]
    exact hscan.1
  let accepts : List Field → Bool := fun fields => qs.all (·.admits fields)
  let pages := db.store f.id
  let left := pages.without f schema accepts
  have hstanding : Standing f pages (accepted f schema accepts pages HeapCursor.first) := .of_accepted husable
  have hleft : left.Usable := (staysBehind_vacated.foldl hstanding).1
  obtain ⟨embed, hpeels⟩ := @peels_sifted start.catalog f schema qs target hf
  have hdelete := changesBehind_delete hf db.store txn
  refine ⟨pages.length + (rowsFrom schema f.id 0 pages).length + left.length + (rowsFrom schema f.id 0 left).length + 1,
    fun fuel hfuel => ?_⟩
  have hfirstFuel : Enough fuel f schema pages HeapCursor.first :=
    ⟨by omega, by rw [HeapCursor.left_first]; omega⟩
  have hsecondFuel : Enough fuel f schema left HeapCursor.first :=
    ⟨by omega, by rw [HeapCursor.left_first]; omega⟩
  -- the first pass removes what is accepted, so that the second one finds nothing
  obtain ⟨_, db₁, hopen, hdb₁, rfl⟩ := (@hpeels _ _ fuel True husable).open_change .delete (Database.deleteRow txn) db
    (by rw [Store.put_eq_self]; exact hready.steady)
  obtain ⟨count, b, db₂, hb, hdb₂, hfirst⟩ := hdelete.collect .delete hpeels hfirstFuel hstanding hdb₁
  obtain ⟨_, db₃, hrewind, hdb₃, rfl⟩ := (@hpeels _ _ fuel True hleft).rewind_change .delete
    (Database.deleteRow txn) hb count true db₂ hdb₂
  obtain ⟨_, _, db₄, -, hdb₄, hsecond⟩ := hdelete.collect .delete hpeels hsecondFuel (.of_accepted hleft) hdb₃
  rw [TableContents.accepted_without husable] at hsecond hdb₄
  refine ⟨db₂, db₄, ?_, hdb₂.without hready hf husable, ?_⟩
  · rw [meaning_sifted]
    exact readTwice_eq hopen hfirst hrewind hsecond
  · have hfits : ∀ page ∈ db.store.put f.id left f.id, Fits page := by
      rw [Store.put_self]
      exact fun page hpage => (hleft.2 page hpage).2
    rw [hdb₄.store_eq hfits, hdb₂.store_eq hfits]
    rfl

theorem fourDigits_usable : ((Pool.run fourDigits ⟨digits 1, []⟩).db.store digitsFile.id).Usable := by
  have hstore : (Pool.run fourDigits ⟨digits 1, []⟩).db.store digitsFile.id
      = [.ok [some [.int 1], some [.int 7], some [.int 2]], .ok [some [.int 8], none, none]] := by decide +kernel
  rw [hstore]
  exact TableContents.usable_pair rfl rfl

/-- Two digits of two pages, in a cache that has one frame for both. -/
theorem readTwice_delete_digits :
    let db := (Pool.run fourDigits ⟨digits 1, []⟩).db
    let child := sifted [large] allDigits
    ∃ m, ∀ fuel, m ≤ fuel → ∃ db₁ db₂,
      (Plan.delete ⟨0⟩ child).readTwice fuel db
        = (((countRow .delete (child.meaning db.store).length).map ([·]), db₁),
          (.ok [⟨countSchema, [.int 0], none⟩], db₂))
      ∧ db.Without (fun fields => [large].all (·.admits fields)) digitsFile db₁
      ∧ db₂.store digitsFile.id = db₁.store digitsFile.id :=
  readTwice_delete (by decide) rfl (digits_proper 1) (show ∀ call ∈ fourDigits, call.Proper by decide)
    (by decide +kernel) (allDigits_built 1) fourDigits_usable _ _

example :
    let passes := (Plan.delete ⟨0⟩ (sifted [large] allDigits)).readTwice 9 (Pool.run fourDigits ⟨digits 1, []⟩).db
    passes.1.1 = .ok [⟨countSchema, [.int 2], none⟩] ∧ passes.2.1 = .ok [⟨countSchema, [.int 0], none⟩]
      ∧ passes.2.2.store digitsFile.id
        = [.ok [some [.int 1], none, some [.int 2]], .ok [none, none, none]] := by
  decide +kernel

end Plan

end RelStore
