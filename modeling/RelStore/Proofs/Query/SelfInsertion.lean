/-
Insertions into the table that the rows are read from.

* `Storable` — fields of the types of a table, with texts within the limit;
* `Row.copied` — the contents with a copy of a row;
* `changesBehind_copy` — as long as every copy finds room on the page of its row or before, the scan does not see it;
* `Source.Peels.copyRows` — in any case a pass copies at least the rows that were left when it began, and if it copies
  no more then all of them found room there;
* `Plan.readAll_insert_iff` — so an insertion copies just the rows that there were when it began, each once, exactly if
  there is room for them (`TableContents.RoomFor`); otherwise it counts more, or does not come to an end.

Design notes.  A copy that goes to a page that the scan has not come to is handed out by the scan as well, because it
has the fields of an accepted row.
-/
import RelStore.Proofs.Query.FirstFit
import RelStore.Proofs.Query.Passes

namespace RelStore

open Database (Steady Ready)
open TableContents (rowsFrom room FindsRoom RoomFor)
open HeapCursor (left accepted Settled)

variable {c : Catalog} {s : Store} {f : HeapFile} {schema : Schema} {fuel : Nat} {accepts : List Field → Bool}
  {pages : TableContents} {n : Nat} {fields : List Field} {x : Row} {rest : List Row} {db : Database}

/-- An answer tells how many rows were counted. -/
theorem eq_of_countRow {kind : Mutation} {k m : Nat} (h : countRow kind k = countRow kind m) : k = m := by
  have hmax : Int32.maxValue.toInt = 2147483647 := by decide
  rw [countRow, countRow, hmax] at h
  split at h
  · next hk =>
    split at h
    · next hm =>
      have hint := congrArg Int32.toInt (Field.int.inj (List.cons.inj (Row.mk.inj (Except.ok.inj h)).2.1).1)
      rw [Int32.toInt_ofInt_of_le (by omega) (by omega), Int32.toInt_ofInt_of_le (by omega) (by omega)] at hint
      omega
    · cases h
  · split at h
    · cases h
    · cases h
      rfl

theorem eq_of_map_countRow {kind : Mutation} {k m : Nat}
    (h : (countRow kind k).map ([·]) = (countRow kind m).map ([·])) : k = m := by
  have hrow : countRow kind k = countRow kind m := by
    cases hk : countRow kind k <;> cases hm : countRow kind m <;> rw [hk, hm] at h <;> cases h <;> rfl
  exact eq_of_countRow hrow

/-- A count is never a failure of storage. -/
theorem countRow_ne_storage {α : Type} {kind : Mutation} {k : Nat} {g : Row → α} {cause : StorageError} :
    (countRow kind k).map g ≠ .error (.storage cause) := by
  rw [countRow]
  split <;> nofun

/-! ### Copies -/

/-- The fields have the types of a table, and texts within the limit. -/
structure Storable (f : HeapFile) (fields : List Field) : Prop where
  types : fields.map Field.type = f.schema.types
  fits : Page.cutRow fields = fields

theorem Storable.length (h : Storable f fields) : fields.length = f.schema.types.length := by
  rw [← h.types, List.length_map]

theorem Storable.wellTyped (h : Storable f fields) : Row.wellTyped f.schema fields = true := by
  rw [Row.wellTyped, ← h.types]
  clear h
  induction fields with
  | nil => rfl
  | cons field fields ih =>
    rw [List.map_cons, List.zip_cons_cons, List.all_cons, ih]
    simp

/-- The contents with a copy of a row. -/
def Row.copied (f : HeapFile) (pages : TableContents) (x : Row) : TableContents :=
  pages.stored (slotCount f.schema f.pageSize) x.fields

/-- Stores a copy of a row in a table. -/
def copyRow (txn : TxnId) (f : HeapFile) (x : Row) : DbM StorageError Unit :=
  Database.insertRow txn f.id { x with schema := f.schema, record := none }

theorem TableContents.Usable.copied (h : pages.Usable) (hx : Storable f x.fields) : (x.copied f pages).Usable := by
  refine ⟨?_, fun page hpage => ⟨?_, ?_⟩⟩
  · obtain ⟨page, pages, rfl⟩ := List.exists_cons_of_ne_nil h.1
    obtain ⟨cells, rfl⟩ := (h.2 page List.mem_cons_self).1
    rw [Row.copied, stored]
    split <;> exact List.cons_ne_nil _ _
  · exact TableContents.each_stored (fun page hpage => (h.2 page hpage).1) ⟨_, rfl⟩
      (fun page hpage => Store.readable_map hpage _) page hpage
  · exact TableContents.each_stored (fun page hpage => (h.2 page hpage).2) (Store.fits_replicate _)
      (Store.fits_fillFirst hx.fits) page hpage

/-- A copy is stored in the first empty cell. -/
theorem Database.Steady.copyRow (h : Steady c (s.put f.id pages) db) (hf : c.file f.id = .ok f) (husable : pages.Usable)
    (hx : Storable f x.fields) (txn : TxnId) :
    ∃ db', (RelStore.copyRow txn f x).outcome db = (.ok (), db') ∧ Steady c (s.put f.id (x.copied f pages)) db' := by
  have hput : s.put f.id pages f.id = pages := Store.put_self ..
  obtain ⟨n, hroom⟩ := Store.exists_room fun page hpage => (husable.2 page hpage).1
  have hfits : ∀ page ∈ s.put f.id pages f.id, Fits page := by
    rw [hput]
    exact fun page hpage => (husable.2 page hpage).2
  obtain ⟨db', hout, hdb'⟩ := @Steady.insertRow c _ f _ n h hf hfits txn ⟨f.schema, x.fields, none⟩
    (by rw [hput]; exact hroom) rfl hx.length hx.wellTyped
  rw [hput, Store.put_put, ← TableContents.stored_eq_onPage hroom] at hdb'
  exact ⟨db', hout, hdb'⟩

/-! ### Copies behind the scan -/

/-- The rows can be copied one after the other, each to its own page or one before it. -/
structure Copyable (f : HeapFile) (pages : TableContents) (rest : List Row) : Prop where
  usable : pages.Usable
  storable : ∀ x ∈ rest, Storable f x.fields
  place : ∀ x ∈ rest, ∃ record, x.record = some record ∧ record.page.number < pages.length
  finds : FindsRoom (slotCount f.schema f.pageSize) pages rest

/-- The copy does not make the table longer. -/
theorem Copyable.exists_room (h : Copyable f pages (x :: rest)) :
    ∃ n record, room pages = .ok n ∧ x.record = some record ∧ n ≤ record.page.number ∧ n < pages.length := by
  obtain ⟨⟨n, record, hroom, hrecord, hn⟩, -⟩ := h.finds
  obtain ⟨record', hrecord', hlt⟩ := h.place x List.mem_cons_self
  obtain rfl : record = record' := Option.some.inj (hrecord.symm.trans hrecord')
  exact ⟨n, record, hroom, hrecord, hn, Nat.lt_of_le_of_lt hn hlt⟩

/-- As long as rows are copied to pages that the scan has left, nothing changes for it. -/
theorem staysBehind_copied : Source.StaysBehind f (Row.copied f) (Copyable f) := by
  constructor
  · exact fun hgood => hgood.usable
  · intro pages x rest hgood
    obtain ⟨n, record, hroom, -, -, hlt⟩ := hgood.exists_room
    exact TableContents.length_stored hroom hlt
  · intro pages x rest n slot hgood hrecord
    obtain ⟨m, record, hroom, hrecord', hle, -⟩ := hgood.exists_room
    rw [hrecord] at hrecord'
    cases hrecord'
    exact TableContents.drop_stored_of_lt hroom (Nat.lt_succ_of_le hle)
  · intro pages x rest hgood
    obtain ⟨n, record, hroom, -, -, hlt⟩ := hgood.exists_room
    refine ⟨hgood.usable.copied (hgood.storable x List.mem_cons_self),
      fun y hy => hgood.storable y (List.mem_cons_of_mem _ hy), fun y hy => ?_, hgood.finds.2⟩
    rw [Row.copied, TableContents.length_stored hroom hlt]
    exact hgood.place y (List.mem_cons_of_mem _ hy)

theorem changesBehind_copy (hf : c.file f.id = .ok f) (s : Store) (txn : TxnId) :
    Source.ChangesBehind c s f (copyRow txn f) (Row.copied f) (Copyable f) :=
  ⟨staysBehind_copied, fun hgood _ hdb => hdb.copyRow hf hgood.usable (hgood.storable _ List.mem_cons_self) txn⟩

/-! ### Copies anywhere -/

/-- A copy that goes to a page that the cursor has not come to is left for it. -/
theorem HeapCursor.exists_left_copied {b : HeapCursor} (hslots : slotCount f.schema f.pageSize ≠ 0)
    (husable : pages.Usable) (hroom : room pages = .ok n) (h : b.nextPage ≤ n) (schema : Schema) (x : Row) :
    ∃ record before after, left f schema pages b = before ++ after
      ∧ left f schema (x.copied f pages) b = before ++ ⟨schema, x.fields, some record⟩ :: after := by
  have hreadable : ∀ page ∈ pages.drop b.nextPage, Readable page := fun page hpage =>
    (husable.2 page (List.mem_of_mem_drop hpage)).1
  obtain ⟨record, before, after, hold, hnew⟩ :=
    TableContents.exists_rowsFrom_stored hslots hreadable schema f.id b.nextPage x.fields
  refine ⟨record, b.pending.map (·.withSchema schema) ++ before, after, ?_, ?_⟩
  · rw [left, hold, List.append_assoc]
  · rw [left, Row.copied, TableContents.drop_stored_of_le hroom h, hnew, List.append_assoc]

namespace Source

variable {β : Type} {child : Source β} {embed : HeapCursor → β} {fresh : β} {b : HeapCursor} {j count : Nat}

/-- A pass that does not fail copies at least the rows that were left when it began. If it copies no more, then each
of these found room on its own page or before. -/
theorem Peels.copyRows (hf : c.file f.id = .ok f) (hslots : slotCount f.schema f.pageSize ≠ 0) (txn : TxnId)
    (hchild : ∀ {pages}, pages.Usable → child.Peels c (s.put f.id pages) f schema accepts fresh embed fuel False)
    (hb : Settled f b) (husable : pages.Usable) (hstorable : ∀ x ∈ left f schema pages b, Storable f x.fields)
    (hdb : Steady c (s.put f.id pages) db) :
    (∃ total state after, (changeRows .insert (copyRow txn f) child j).outcome
          (⟨count, false, Running.plain (embed b)⟩, db) = ((countRow .insert total).map some, state, after)
        ∧ state.finished = true ∧ count + (accepted f schema accepts pages b).length ≤ total
        ∧ (total = count + (accepted f schema accepts pages b).length →
          FindsRoom (slotCount f.schema f.pageSize) pages (accepted f schema accepts pages b)))
      ∨ ∃ cause after, (changeRows .insert (copyRow txn f) child j).outcome
          (⟨count, false, Running.plain (embed b)⟩, db) = (.error (.storage cause), after) := by
  have hput : s.put f.id pages f.id = pages := Store.put_self ..
  -- on the bound for the loop, which the rows to come may well exceed
  induction j generalizing pages b count db with
  | zero => exact .inr ⟨.outOfFuel, _, rfl⟩
  | succ j ih =>
    obtain ⟨row, b', db', hb', hpeeled, hdb', hout⟩ | ⟨-, hfail⟩ :=
      (hchild husable).changeRows_cases hb False.elim hdb count false
    · rw [hout]
      rw [hput] at hpeeled
      cases row with
      | none =>
        rw [hpeeled.accepted_eq_nil, outcome_changeStep_none]
        exact .inl ⟨count, _, _, rfl, rfl, Nat.le_refl _, fun _ => trivial⟩
      | some x =>
        have hcons := hpeeled.accepted_eq
        obtain ⟨hx, ⟨p, slot, hrecord, hnext⟩, passed, hleft, -⟩ := hpeeled
        have hmem : ∀ y, y = x ∨ y ∈ left f schema pages b' → Storable f y.fields := by
          intro y hy
          refine hstorable y ?_
          rw [hleft]
          exact List.mem_append_right _ (List.mem_cons.mpr hy)
        obtain ⟨db'', hcopy, hdb''⟩ := hdb'.copyRow hf husable (hmem x (.inl rfl)) txn
        obtain ⟨n, hroom⟩ := Store.exists_room fun page hpage => (husable.2 page hpage).1
        rw [outcome_changeStep_some, hcopy, hcons, List.length_cons]
        have hrest := @ih (x.copied f pages) db'' b' (count + 1) hb' (husable.copied (hmem x (.inl rfl)))
        by_cases hn : n ≤ p
        · -- the cursor has left the page of the copy
          have hsame : left f schema (x.copied f pages) b' = left f schema pages b' :=
            HeapCursor.left_congr (TableContents.drop_stored_of_lt hroom (by omega))
          have haccepted : accepted f schema accepts (x.copied f pages) b' = accepted f schema accepts pages b' := by
            rw [accepted, hsame, accepted]
          rw [hsame, haccepted] at hrest
          obtain ⟨total, state, after, hout, hfinished, hle, hfinds⟩ | hfail :=
            hrest (fun y hy => hmem y (.inr hy)) hdb'' (Store.put_self ..)
          · exact .inl ⟨total, state, after, hout, hfinished, by omega,
              fun htotal => ⟨⟨n, _, hroom, hrecord, hn⟩, hfinds (by omega)⟩⟩
          · exact .inr hfail
        · -- the cursor is still to come to the copy, which is accepted as its row was
          obtain ⟨record, before, after, hold, hnew⟩ :=
            HeapCursor.exists_left_copied hslots husable hroom (show b'.nextPage ≤ n by omega) schema x
          have haccepted : (accepted f schema accepts (x.copied f pages) b').length
              = (accepted f schema accepts pages b').length + 1 := by
            rw [accepted, accepted, hold, hnew, List.filter_append, List.filter_append, List.filter_cons, if_pos hx]
            simp only [List.length_append, List.length_cons, Nat.add_assoc]
          have hstorable' : ∀ y ∈ left f schema (x.copied f pages) b', Storable f y.fields := by
            rw [hold] at hmem
            rw [hnew]
            intro y hy
            rcases List.mem_append.mp hy with hy | hy
            · exact hmem y (.inr (List.mem_append_left _ hy))
            · rcases List.mem_cons.mp hy with rfl | hy
              · exact hmem x (.inl rfl)
              · exact hmem y (.inr (List.mem_append_right _ hy))
          obtain ⟨total, state, after, hout, hfinished, hle, -⟩ | hfail := hrest hstorable' hdb'' (Store.put_self ..)
          · exact .inl ⟨total, state, after, hout, hfinished, by omega, fun htotal => absurd hle (by omega)⟩
          · exact .inr hfail
    · exact .inr hfail

end Source

/-! ### Insertions -/

/-- The rows of a usable table can be stored again. -/
theorem storable_of_ready (h : Ready c db) (hf : c.file f.id = .ok f) (husable : (db.store f.id).Usable) {x : Row}
    (hx : x ∈ rowsFrom schema f.id n (db.store f.id)) : Storable f x.fields :=
  TableContents.of_mem_rowsFrom (Q := Storable f) (fun cells hcells fields hfields =>
    ⟨h.typed hf cells hcells fields hfields,
      Page.cutRow_eq_of_mem (Except.ok.inj (husable.2 _ hcells).2) hfields⟩) hx

/-- The accepted rows of a table stand on its pages. -/
theorem TableContents.Usable.place (husable : pages.Usable)
    (hx : x ∈ accepted f schema accepts pages HeapCursor.first) :
    ∃ record, x.record = some record ∧ record.page.number < pages.length := by
  obtain ⟨n, slot, fields, hfields, -, rfl⟩ := (TableContents.mem_accepted_iff husable).mp hx
  obtain ⟨cells, hpage, -⟩ := TableContents.fieldsAt_eq_some_iff.mp hfields
  exact ⟨_, rfl, (List.getElem?_eq_some_iff.mp hpage).1⟩

/-- They find room exactly if there is room for them. -/
theorem TableContents.Usable.findsRoom_iff (husable : pages.Usable) (slots : Nat) :
    FindsRoom slots pages (accepted f schema accepts pages HeapCursor.first)
      ↔ RoomFor pages (accepted f schema accepts pages HeapCursor.first) := by
  have hreadable : ∀ page ∈ pages, Readable page := fun page hpage => (husable.2 page hpage).1
  exact TableContents.findsRoom_iff hreadable (fun x hx => husable.place hx)
    ((TableContents.pairwise_rowsFrom hreadable).filter _)

namespace Plan

open Source (Enough)

variable {target : ScanTarget}

/-- What an insertion over filters over a scan of its own table answers, with any fuel: at least as many rows as there
were when it began, and more if there is no room for these. -/
theorem le_of_readAll_insert (h : Ready c db) (hproper : c.Proper) (hf : c.file f.id = .ok f)
    (husable : (db.store f.id).Usable) (qs : List Predicate) (txn : TxnId) {k : Nat} {db' : Database} (hfuel : 2 ≤ fuel)
    (hread : (Plan.insert txn f.id f.schema (sifted qs (.scan target f schema))).readAll fuel db
      = ((countRow .insert k).map ([·]), db')) :
    RoomFor (db.store f.id) ((sifted qs (.scan target f schema)).meaning db.store)
      ∨ ((sifted qs (.scan target f schema)).meaning db.store).length < k := by
  obtain ⟨embed, hpeels⟩ := @peels_sifted c f schema qs target hf
  let child := sifted qs (.scan target f schema)
  have hslots : slotCount f.schema f.pageSize ≠ 0 := hproper.slotCount_ne_zero hf
  obtain ⟨_, db₁, hopen, hdb₁, rfl⟩ := (@hpeels _ _ fuel True husable).open_change .insert (copyRow txn f) db
    (by rw [Store.put_eq_self]; exact h.steady)
  obtain ⟨i, rfl⟩ : ∃ i, fuel = i + 2 := ⟨fuel - 2, by omega⟩
  rw [meaning_sifted]
  obtain ⟨total, state, after, hout, hfinished, hle, hfinds⟩ | ⟨cause, after, hout⟩ :=
    Source.Peels.copyRows (j := i + 2) hf hslots txn hpeels HeapCursor.settled_first husable
      (fun x hx => storable_of_ready h hf husable hx) hdb₁
  · have hanswer := readAll_eq (p := Plan.insert txn f.id f.schema child) hopen
      (Source.outcome_collect_change rfl hfinished hout i)
    obtain rfl := eq_of_map_countRow (congrArg Prod.fst (hread.symm.trans hanswer))
    rcases Nat.eq_or_lt_of_le hle with heq | hlt
    · exact .inl ((husable.findsRoom_iff _).mp (hfinds heq.symm))
    · exact .inr (by omega)
  · have hanswer := readAll_eq (p := Plan.insert txn f.id f.schema child) hopen
      (Source.outcome_collect_change_error rfl hout (i + 1))
    exact absurd (congrArg Prod.fst (hread.symm.trans hanswer)) countRow_ne_storage

/-- An insertion of the rows that filters over a scan of a usable table hand out into that table, in a cache with a
frame that nobody holds anything of: it stores one copy of each row that they would have handed out before, and answers
how many these are, exactly if there is room for the copies. Without room every answer counts more rows. -/
theorem readAll_insert_iff {n : Nat} (hn : 0 < n) {start : Database} (hcache : start.cache = PageCache.ofSize n)
    (hproper : start.catalog.Proper) {calls : List PoolCall} (hcalls : ∀ call ∈ calls, call.Proper)
    (hheld : (Pool.run calls ⟨start, []⟩).held = []) (hscan : (Plan.scan target f schema).Built start.catalog)
    (husable : ((Pool.run calls ⟨start, []⟩).db.store f.id).Usable) (qs : List Predicate) (txn : TxnId) :
    let db := (Pool.run calls ⟨start, []⟩).db
    let child := sifted qs (.scan target f schema)
    let rows := child.meaning db.store
    ∃ m, ∀ fuel, m ≤ fuel →
      ((∃ db', (Plan.insert txn f.id f.schema child).readAll fuel db
            = ((countRow .insert rows.length).map ([·]), db')
          ∧ db'.store f.id = rows.foldl (Row.copied f) (db.store f.id))
        ↔ RoomFor (db.store f.id) rows)
      ∧ ∀ k db', (Plan.insert txn f.id f.schema child).readAll fuel db = ((countRow .insert k).map ([·]), db') →
        RoomFor (db.store f.id) rows ∨ rows.length < k := by
  intro db child rows
  have hready : Ready start.catalog db := Pool.ready_run hn hcache hproper hcalls hheld
  have hf : start.catalog.file f.id = .ok f := by
    rw [hproper.id_of_file hscan.1]
    exact hscan.1
  let pages := db.store f.id
  have hrows : rows = accepted f schema (fun fields => qs.all (·.admits fields)) pages HeapCursor.first :=
    meaning_sifted qs
  obtain ⟨embed, hpeels⟩ := @peels_sifted start.catalog f schema qs target hf
  refine ⟨pages.length + (rowsFrom schema f.id 0 pages).length + 2, fun fuel hfuel => ⟨⟨?_, fun hroom => ?_⟩, ?_⟩⟩
  · rintro ⟨db', hread, -⟩
    exact (le_of_readAll_insert hready hproper hf husable qs txn (by omega) hread).resolve_right (Nat.lt_irrefl _)
  · have henough : Enough fuel f schema pages HeapCursor.first :=
      ⟨by omega, by rw [HeapCursor.left_first]; omega⟩
    rw [hrows] at hroom ⊢
    have hcopyable : Copyable f pages
        (accepted f schema (fun fields => qs.all (·.admits fields)) pages HeapCursor.first) :=
      ⟨husable, fun x hx => storable_of_ready hready hf husable (List.mem_filter.mp hx).1, fun x hx => husable.place hx,
        (husable.findsRoom_iff _).mpr hroom⟩
    obtain ⟨_, db₁, hopen, hdb₁, rfl⟩ := (@hpeels _ _ fuel True husable).open_change .insert (copyRow txn f) db
      (by rw [Store.put_eq_self]; exact hready.steady)
    have hcopy := changesBehind_copy hf db.store txn
    obtain ⟨count, b, db₂, -, hdb₂, hcollect⟩ := hcopy.collect .insert hpeels henough hcopyable hdb₁
    refine ⟨db₂, readAll_eq (p := Plan.insert txn f.id f.schema child) hopen hcollect, ?_⟩
    have hafter := (staysBehind_copied.foldl hcopyable).1
    rw [hdb₂.store_eq (by rw [Store.put_self]; exact fun page hpage => (hafter.2 page hpage).2), Store.put_self]
  · exact fun k db' hread => le_of_readAll_insert hready hproper hf husable qs txn (by omega) hread

/-- One row left the first page. -/
def roomBefore : List PoolCall :=
  fourDigits ++ [undigit 0 0]

theorem roomBefore_usable : ((Pool.run roomBefore ⟨digits 1, []⟩).db.store digitsFile.id).Usable := by
  have hstore : (Pool.run roomBefore ⟨digits 1, []⟩).db.store digitsFile.id
      = [.ok [none, some [.int 7], some [.int 2]], .ok [some [.int 8], none, none]] := by decide +kernel
  rw [hstore]
  exact TableContents.usable_pair rfl rfl

/-- There is room for one of the two digits on the first page, and for the other one on its own. -/
theorem readAll_insert_iff_digits :
    let db := (Pool.run roomBefore ⟨digits 1, []⟩).db
    let child := sifted [large] allDigits
    let rows := child.meaning db.store
    ∃ m, ∀ fuel, m ≤ fuel →
      ((∃ db', (Plan.insert ⟨0⟩ digitsFile.id digitsFile.schema child).readAll fuel db
            = ((countRow .insert rows.length).map ([·]), db')
          ∧ db'.store digitsFile.id = rows.foldl (Row.copied digitsFile) (db.store digitsFile.id))
        ↔ RoomFor (db.store digitsFile.id) rows)
      ∧ ∀ k db', (Plan.insert ⟨0⟩ digitsFile.id digitsFile.schema child).readAll fuel db
          = ((countRow .insert k).map ([·]), db') →
        RoomFor (db.store digitsFile.id) rows ∨ rows.length < k :=
  readAll_insert_iff (by decide) rfl (digits_proper 1) (show ∀ call ∈ roomBefore, call.Proper by decide)
    (by decide +kernel) (allDigits_built 1) roomBefore_usable _ _

example :
    let db := (Pool.run roomBefore ⟨digits 1, []⟩).db
    let pass := (Plan.insert ⟨0⟩ digitsFile.id digitsFile.schema (sifted [large] allDigits)).readAll 9 db
    pass.1 = .ok [⟨countSchema, [.int 2], none⟩]
      ∧ pass.2.store digitsFile.id
        = [.ok [some [.int 7], some [.int 7], some [.int 2]], .ok [some [.int 8], some [.int 8], none]] := by
  decide +kernel

/-- Two rows left, the last one of each page. -/
def roomBehind : List PoolCall :=
  fourDigits ++ [undigit 0 2, undigit 1 0]

theorem roomBehind_store :
    (Pool.run roomBehind ⟨digits 1, []⟩).db.store digitsFile.id
      = [.ok [some [.int 1], some [.int 7], none], .ok [none, none, none]] := by
  decide +kernel

/-- Of two rows on a page with room for one, the copy of the second goes to the next page, and is read and copied as
well. -/
theorem readAll_insert_ne_two :
    let db := (Pool.run roomBehind ⟨digits 1, []⟩).db
    let copies := Plan.insert ⟨0⟩ digitsFile.id digitsFile.schema allDigits
    (allDigits.meaning db.store).length = 2
      ∧ (copies.readAll 9 db).1 = .ok [⟨countSchema, [.int 3], none⟩]
      ∧ ∀ fuel, 2 ≤ fuel → (copies.readAll fuel db).1 ≠ .ok [⟨countSchema, [.int 2], none⟩] := by
  intro db copies
  have hready : Ready (digits 1).catalog db :=
    Pool.ready_run Nat.one_pos rfl (digits_proper 1) (show ∀ call ∈ roomBehind, call.Proper by decide)
      (by decide +kernel)
  have husable : (db.store digitsFile.id).Usable := by
    rw [roomBehind_store]
    exact TableContents.usable_pair rfl rfl
  have hrows : (allDigits.meaning db.store).countP (·.standsBefore 1) = 2 := by decide +kernel
  refine ⟨by decide +kernel, by decide +kernel, fun fuel hfuel hread => ?_⟩
  obtain hroom | hmore := le_of_readAll_insert (k := 2) hready (digits_proper 1) rfl husable [] ⟨0⟩ hfuel
    (Prod.ext hread rfl)
  · have hfirst : (allDigits.meaning db.store).countP (·.standsBefore 1) ≤ 1 := by
      have := hroom 1
      rw [roomBehind_store] at this
      exact this
    omega
  · exact absurd hmore (by decide +kernel)

end Plan

end RelStore
