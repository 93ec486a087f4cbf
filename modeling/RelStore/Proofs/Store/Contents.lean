/-
The contents of tables, without files and caches.

A table is a list of pages and a page a list of cells, each empty or with the fields of a row.  On such
contents the operations of a database are short:

* `TableContents.room` — the page that the next row goes to: the first with an empty cell, or a new one at the
  end (`TableContents.room_eq_ok_iff`);
* `Store.insertRow`, `Store.deleteRow`, `Store.page` — what the operations answer and leave behind;
* `Store.CutTo` — the same contents, but for long texts on some pages that are cut;
* `Store.CutTo.eq_of_fits` — where all texts are within the limit, nothing is cut.

Design notes.  A page of a file may be unreadable, so each page is an `Except`.  The search for room stops at
such a page with its error.
-/
import RelStore.Proofs.Storage.PageImage
import RelStore.Catalog

namespace RelStore

open Page (Cells cut cutRow)

/-- The cells of each page of a table, or why the page cannot be read. -/
abbrev TableContents := List (Except StorageError Cells)

/-- The page can be read. -/
def Readable (page : Except StorageError Cells) : Prop :=
  ∃ cells, page = .ok cells

/-- All texts of the page are within the limit. -/
def Fits (page : Except StorageError Cells) : Prop :=
  page.map cut = page

/-- The contents of every table. -/
abbrev Store := TableId → TableContents

namespace Page

/-- The cells with a row in the first empty one. -/
def fillFirst (fields : List Field) (cells : Cells) : Cells :=
  match cells.findIdx? Option.isNone with
  | some slot => cells.set slot (some fields)
  | none => cells

theorem findIdx?_cut (cells : Cells) :
    (cut cells).findIdx? Option.isNone = cells.findIdx? Option.isNone := by
  rw [cut, List.findIdx?_map]
  congr 1
  funext s
  cases s <;> rfl

theorem none_mem_cut {cells : Cells} : none ∈ cut cells ↔ none ∈ cells := by
  simp [cut]

@[simp] theorem cut_cut (cells : Cells) : cut (cut cells) = cut cells := by
  simp only [cut, List.map_map]
  refine List.map_congr_left fun s _ => ?_
  cases s with
  | none => rfl
  | some fields => exact congrArg some (cutRow_cutRow fields)

theorem cutRow_eq_of_mem {cells : Cells} {fields : List Field} (h : cut cells = cells)
    (hfields : some fields ∈ cells) : cutRow fields = fields := by
  obtain ⟨i, hi⟩ := List.mem_iff_getElem?.mp hfields
  have hcut : (cut cells)[i]? = some (some (cutRow fields)) := by
    rw [cut, List.getElem?_map, hi]
    rfl
  rw [h, hi] at hcut
  exact (Option.some.inj (Option.some.inj hcut)).symm

theorem exists_findIdx?_of_none_mem {cells : Cells} (h : none ∈ cells) :
    ∃ slot, cells.findIdx? Option.isNone = some slot := by
  cases hidx : cells.findIdx? Option.isNone with
  | some slot => exact ⟨slot, rfl⟩
  | none =>
    have := List.findIdx?_eq_none_iff.mp hidx none h
    cases this

end Page

namespace TableContents

/-- The page that the next row goes to: the first with an empty cell, or a new one behind all pages. A page
that cannot be read stops the search. -/
def room : TableContents → Except StorageError Nat
  | [] => .ok 0
  | .error e :: _ => .error e
  | .ok cells :: pages => if none ∈ cells then .ok 0 else (room pages).map (· + 1)

/-- The contents with an empty page at the end, if page `n` is not there. -/
def grown (slots n : Nat) (pages : TableContents) : TableContents :=
  if n < pages.length then pages else pages ++ [.ok (List.replicate slots none)]

/-- The contents with another page `n`. -/
def onPage (n : Nat) (change : Cells → Cells) (pages : TableContents) : TableContents :=
  pages.modify n (Except.map change)

/-- The pages from first to last are as they were, but for some whose long texts are cut. -/
def CutTo (a b : TableContents) : Prop :=
  b.length = a.length ∧ ∀ n : Nat, b[n]? = a[n]? ∨ b[n]? = (a[n]?).map (Except.map cut)

theorem grown_of_lt {slots n : Nat} {pages : TableContents} (h : n < pages.length) :
    grown slots n pages = pages :=
  if_pos h

theorem grown_of_le {slots n : Nat} {pages : TableContents} (h : pages.length ≤ n) :
    grown slots n pages = pages ++ [.ok (List.replicate slots none)] :=
  if_neg (Nat.not_lt.mpr h)

theorem room_cons_ok (cells : Cells) (pages : TableContents) :
    room (.ok cells :: pages) = if none ∈ cells then .ok 0 else (room pages).map (· + 1) := rfl

theorem room_cons_error (e : StorageError) (pages : TableContents) :
    room (.error e :: pages) = .error e := rfl

/-- The pages before the one with room are full. -/
theorem full_of_room {pages : TableContents} {n : Nat} (h : room pages = .ok n) :
    (∀ k < n, ∃ cells, pages[k]? = some (.ok cells) ∧ none ∉ cells) ∧
      (n = pages.length ∨ ∃ cells, pages[n]? = some (.ok cells) ∧ none ∈ cells) := by
  induction pages generalizing n with
  | nil =>
    cases h
    exact ⟨fun k hk => absurd hk (Nat.not_lt_zero k), .inl rfl⟩
  | cons page pages ih =>
    cases page with
    | error e => cases h
    | ok cells =>
      rw [room_cons_ok] at h
      by_cases hmem : none ∈ cells
      · rw [if_pos hmem] at h
        cases h
        exact ⟨fun k hk => absurd hk (Nat.not_lt_zero k), .inr ⟨cells, rfl, hmem⟩⟩
      · rw [if_neg hmem] at h
        cases hrest : room pages with
        | error e =>
          rw [hrest] at h
          cases h
        | ok m =>
          rw [hrest] at h
          cases h
          obtain ⟨hfull, hend⟩ := ih hrest
          refine ⟨fun k hk => ?_, by simpa using hend⟩
          cases k with
          | zero => exact ⟨cells, rfl, hmem⟩
          | succ k => exact hfull k (Nat.lt_of_succ_lt_succ hk)

/-- Behind full pages the search ends at a page that is not full, or behind the last page. -/
theorem room_of_full {pages : TableContents} {n : Nat}
    (hfull : ∀ k < n, ∃ cells, pages[k]? = some (.ok cells) ∧ none ∉ cells)
    (hend : n = pages.length ∨ ∃ cells, pages[n]? = some (.ok cells) ∧ none ∈ cells) : room pages = .ok n := by
  induction pages generalizing n with
  | nil =>
    rcases hend with rfl | ⟨cells, hcells, -⟩
    · rfl
    · cases hcells
  | cons page pages ih =>
    cases n with
    | zero =>
      rcases hend with hlen | ⟨cells, hcells, hmem⟩
      · cases hlen
      · cases hcells
        rw [room_cons_ok, if_pos hmem]
    | succ n =>
      obtain ⟨cells, hcells, hmem⟩ := hfull 0 (Nat.succ_pos n)
      cases hcells
      have hrest : room pages = .ok n :=
        ih (fun k hk => hfull (k + 1) (Nat.succ_lt_succ hk)) (by simpa using hend)
      rw [room_cons_ok, if_neg hmem, hrest]
      rfl

/-- The search for room ends at the first page that is not full, or behind the last page. -/
theorem room_eq_ok_iff {pages : TableContents} {n : Nat} :
    room pages = .ok n ↔
      (∀ k < n, ∃ cells, pages[k]? = some (.ok cells) ∧ none ∉ cells) ∧
        (n = pages.length ∨ ∃ cells, pages[n]? = some (.ok cells) ∧ none ∈ cells) :=
  ⟨full_of_room, fun h => room_of_full h.1 h.2⟩

/-- A page that was cut, or was not, in front of pages of which the same holds. -/
theorem CutTo.exists_cons {page : Except StorageError Cells} {a b : TableContents} (h : CutTo (page :: a) b) :
    ∃ page' tail, b = page' :: tail ∧ (page' = page ∨ page' = page.map cut) ∧ a.CutTo tail := by
  obtain ⟨hlen, hpages⟩ := h
  cases b with
  | nil => cases hlen
  | cons page' tail =>
    refine ⟨page', tail, rfl, by simpa using hpages 0, by simpa using hlen, fun n => ?_⟩
    simpa using hpages (n + 1)

/-- Cutting texts neither frees nor fills a cell. -/
theorem CutTo.room_eq {a b : TableContents} (h : a.CutTo b) : room b = room a := by
  -- page by page: a cut page is full exactly if it was
  induction a generalizing b with
  | nil =>
    rw [List.length_eq_zero_iff.mp h.1]
  | cons page a ih =>
    obtain ⟨page', tail, rfl, hhead, htail⟩ := h.exists_cons
    replace htail := ih htail
    rcases hhead with rfl | rfl
    · cases page' with
      | error e => rfl
      | ok cells => rw [room_cons_ok, room_cons_ok, htail]
    · cases page with
      | error e => rfl
      | ok cells => simp only [Except.map, room_cons_ok, htail, Page.none_mem_cut]

theorem CutTo.refl (a : TableContents) : a.CutTo a :=
  ⟨rfl, fun _ => .inl rfl⟩

theorem CutTo.trans {a b c : TableContents} (h : a.CutTo b) (h' : b.CutTo c) : a.CutTo c := by
  have hcut : ∀ page : Option (Except StorageError Cells),
      (page.map (Except.map cut)).map (Except.map cut) = page.map (Except.map cut) := by
    rintro (_ | e | cells)
    · rfl
    · rfl
    · exact congrArg (fun c => some (Except.ok c)) (Page.cut_cut cells)
  refine ⟨h'.1.trans h.1, fun n => ?_⟩
  rcases h.2 n with h1 | h1 <;> rcases h'.2 n with h2 | h2
  · exact .inl (h2.trans h1)
  · exact .inr (by rw [h2, h1])
  · exact .inr (by rw [h2, h1])
  · exact .inr (by rw [h2, h1, hcut])

/-- Where all texts are within the limit, nothing is cut. -/
theorem CutTo.eq_of_fits {a b : TableContents} (h : a.CutTo b) (hfits : ∀ page ∈ a, Fits page) :
    b = a := by
  refine List.ext_getElem? fun n => ?_
  rcases h.2 n with h1 | h1
  · exact h1
  · rw [h1]
    cases hpage : a[n]? with
    | none => rfl
    | some page => exact congrArg some (hfits page (List.mem_of_getElem? hpage))

end TableContents

namespace Store

open TableContents

/-- The store with other contents of a table. -/
def put (s : Store) (table : TableId) (pages : TableContents) : Store :=
  fun id => if id = table then pages else s id

@[simp] theorem put_self (s : Store) (table : TableId) (pages : TableContents) :
    s.put table pages table = pages :=
  if_pos rfl

theorem put_of_ne (s : Store) {table id : TableId} (h : id ≠ table) (pages : TableContents) :
    s.put table pages id = s id :=
  if_neg h

@[simp] theorem put_put (s : Store) (table : TableId) (a b : TableContents) :
    (s.put table a).put table b = s.put table b := by
  funext id
  simp only [put]
  split <;> rfl

@[simp] theorem put_eq_self (s : Store) (table : TableId) : s.put table (s table) = s := by
  funext id
  rw [put]
  split
  · next h => rw [h]
  · rfl

/-- The tables are as they were, but for pages whose long texts are cut. -/
def CutTo (a b : Store) : Prop :=
  ∀ table, (a table).CutTo (b table)

theorem CutTo.refl (a : Store) : a.CutTo a :=
  fun table => TableContents.CutTo.refl (a table)

theorem CutTo.trans {a b c : Store} (h : a.CutTo b) (h' : b.CutTo c) : a.CutTo c :=
  fun table => (h table).trans (h' table)

/-- The cells of a page. -/
def page (c : Catalog) (s : Store) (page : PageId) : Except StorageError Cells :=
  match c.file page.table with
  | .error e => .error e
  | .ok _ =>
    match (s page.table)[page.number]? with
    | some cells => cells
    | none => .error (.invalidPageReference page)

/-- A page is shown as before, or cut; one that cannot be read is refused as before. -/
theorem CutTo.page {a b : Store} (h : a.CutTo b) (c : Catalog) (page : PageId) :
    b.page c page = a.page c page ∨ b.page c page = (a.page c page).map cut := by
  rw [Store.page, Store.page]
  split
  · exact .inl rfl
  · rcases (h page.table).2 page.number with hsame | hcut
    · exact .inl (by rw [hsame])
    · rw [hcut]
      cases (a page.table)[page.number]? with
      | none => exact .inl rfl
      | some cells => exact .inr rfl

theorem CutTo.page_eq_error {a b : Store} (h : a.CutTo b) {c : Catalog} {page : PageId}
    {e : StorageError} (he : a.page c page = .error e) : b.page c page = .error e := by
  rcases h.page c page with hsame | hcut
  · rw [hsame, he]
  · rw [hcut, he]
    rfl

/-- Stores a row in a table: in the first empty cell, on a new page if there is none. A row with a field of
another type than its column is refused only when there is room for it. -/
def insertRow (c : Catalog) (s : Store) (table : TableId) (r : Row) : Except StorageError Unit × Store :=
  match c.file table with
  | .error e => (.error e, s)
  | .ok f =>
    if r.schema.agrees f.schema then
      match room (s table) with
      | .error e => (.error e, s)
      | .ok n =>
        let pages := grown (slotCount f.schema f.pageSize) n (s table)
        if Row.wellTyped f.schema r.fields then
          (.ok (), s.put table (pages.onPage n (Page.fillFirst r.fields)))
        else (.error (.mismatch f.schema r.schema), s.put table pages)
    else (.error (.mismatch f.schema r.schema), s)

/-- Another table is not changed by an insertion. -/
theorem insertRow_of_ne {c : Catalog} {s : Store} {table id : TableId} {r : Row} (hid : id ≠ table) :
    (s.insertRow c table r).2 id = s id := by
  rw [insertRow]
  split
  · rfl
  · split
    · split
      · rfl
      · dsimp only
        split <;> exact put_of_ne _ hid _
    · rfl

/-- Empties the cell that the row's record id names. -/
def deleteRow (c : Catalog) (s : Store) (r : Row) : Except StorageError Unit × Store :=
  match r.record with
  | none => (.error .missingRecordId, s)
  | some record =>
    match s.page c record.page with
    | .error e => (.error e, s)
    | .ok cells =>
      match cells[record.slot]? with
      | some (some _) =>
        (.ok (), s.put record.page.table
          ((s record.page.table).onPage record.page.number (·.set record.slot none)))
      | _ => (.error (.slotEmpty record.page record.slot), s)

/-! ### What holds of every page -/

section Each

variable {P : Except StorageError Cells → Prop} {s : Store}

/-- Every page of every table has a property. -/
def Each (P : Except StorageError Cells → Prop) (s : Store) : Prop :=
  ∀ table, ∀ page ∈ s table, P page

theorem Each.put (h : s.Each P) {table : TableId} {pages : TableContents}
    (hpages : ∀ page ∈ pages, P page) : (s.put table pages).Each P := by
  intro id page hpage
  rw [Store.put] at hpage
  split at hpage
  · exact hpages page hpage
  · exact h id page hpage

theorem each_grown {slots n : Nat} {pages : TableContents} (h : ∀ page ∈ pages, P page)
    (hempty : ∀ k, P (.ok (List.replicate k none))) : ∀ page ∈ grown slots n pages, P page := by
  intro page hpage
  rw [grown] at hpage
  split at hpage
  · exact h page hpage
  · rcases List.mem_append.mp hpage with hold | hnew
    · exact h page hold
    · rw [List.mem_singleton.mp hnew]
      exact hempty slots

theorem each_onPage {n : Nat} {change : Cells → Cells} {pages : TableContents}
    (h : ∀ page ∈ pages, P page) (hchange : ∀ page, P page → P (page.map change)) :
    ∀ page ∈ pages.onPage n change, P page := by
  intro page hpage
  obtain ⟨i, hi⟩ := List.mem_iff_getElem?.mp hpage
  rw [onPage, List.getElem?_modify] at hi
  obtain ⟨old, hold, rfl⟩ := Option.map_eq_some_iff.mp hi
  split
  · exact hchange old (h old (List.mem_of_getElem? hold))
  · exact h old (List.mem_of_getElem? hold)

theorem Each.insertRow (h : s.Each P) (c : Catalog) (table : TableId) {r : Row}
    (hempty : ∀ k, P (.ok (List.replicate k none)))
    (hfill : ∀ page, P page → P (page.map (Page.fillFirst r.fields))) :
    (s.insertRow c table r).2.Each P := by
  rw [Store.insertRow]
  split
  · exact h
  · split
    · split
      · exact h
      · split
        · exact h.put (each_onPage (each_grown (h table) hempty) hfill)
        · exact h.put (each_grown (h table) hempty)
    · exact h

theorem Each.deleteRow (h : s.Each P) (c : Catalog) {r : Row}
    (hset : ∀ page slot, P page → P (page.map fun cells => cells.set slot none)) :
    (s.deleteRow c r).2.Each P := by
  rw [Store.deleteRow]
  split
  · exact h
  · split
    · exact h
    · split
      · exact h.put (each_onPage (h _) fun page => hset page _)
      · exact h

theorem cut_fillFirst (fields : List Field) (cells : Cells) :
    cut (Page.fillFirst fields cells) = Page.fillFirst (cutRow fields) (cut cells) := by
  rw [Page.fillFirst, Page.fillFirst, Page.findIdx?_cut]
  split
  · rw [cut, List.map_set]
    rfl
  · rfl

theorem fits_replicate (k : Nat) : Fits (.ok (List.replicate k none)) := by
  simp [Fits, Except.map, cut]

theorem fits_fillFirst {fields : List Field} (hfields : cutRow fields = fields)
    (page : Except StorageError Cells) (h : Fits page) : Fits (page.map (Page.fillFirst fields)) := by
  cases page with
  | error e => rfl
  | ok cells =>
    have hcells : cut cells = cells := Except.ok.inj h
    exact congrArg Except.ok (by rw [cut_fillFirst, hfields, hcells])

theorem fits_set_none (page : Except StorageError Cells) (slot : Nat) (h : Fits page) :
    Fits (page.map fun cells => cells.set slot none) := by
  cases page with
  | error e => rfl
  | ok cells =>
    have hcells : cut cells = cells := Except.ok.inj h
    refine congrArg Except.ok ?_
    rw [cut, List.map_set, ← cut, hcells]
    rfl

theorem readable_map {page : Except StorageError Cells} (h : Readable page) (change : Cells → Cells) :
    Readable (page.map change) := by
  obtain ⟨cells, rfl⟩ := h
  exact ⟨change cells, rfl⟩

theorem CutTo.each_readable {a b : Store} (h : a.CutTo b) (ha : a.Each Readable) : b.Each Readable := by
  intro table page hpage
  obtain ⟨n, hn⟩ := List.mem_iff_getElem?.mp hpage
  rcases (h table).2 n with hsame | hcut
  · rw [hsame] at hn
    exact ha table page (List.mem_of_getElem? hn)
  · rw [hcut] at hn
    obtain ⟨old, hold, rfl⟩ := Option.map_eq_some_iff.mp hn
    exact readable_map (ha table old (List.mem_of_getElem? hold)) cut

/-- Where all texts are within the limit, nothing is cut. -/
theorem CutTo.eq_of_fits {a b : Store} (h : a.CutTo b) (hfits : a.Each Fits) : b = a := by
  funext table
  exact (h table).eq_of_fits (hfits table)

end Each

/-! ### Successes and failures -/

/-- The row at an address. -/
def row? (s : Store) (record : RecordId) : Option (List Field) :=
  match (s record.page.table)[record.page.number]? with
  | some (.ok cells) => cells[record.slot]?.join
  | _ => none

variable {s : Store} {c : Catalog}

theorem exists_room {pages : TableContents} (h : ∀ page ∈ pages, Readable page) :
    ∃ n, room pages = .ok n := by
  induction pages with
  | nil => exact ⟨0, rfl⟩
  | cons page pages ih =>
    obtain ⟨cells, rfl⟩ := h page List.mem_cons_self
    obtain ⟨n, hn⟩ := ih fun page hpage => h page (List.mem_cons_of_mem _ hpage)
    rw [room_cons_ok, hn]
    split
    · exact ⟨0, rfl⟩
    · exact ⟨n + 1, rfl⟩

/-- Where all pages can be read, a page is shown exactly if it is there. -/
theorem page_eq_ok_iff (h : s.Each Readable) {page : PageId} :
    (∃ cells, s.page c page = .ok cells)
      ↔ (∃ f, c.file page.table = .ok f) ∧ page.number < (s page.table).length := by
  rw [Store.page]
  cases hf : c.file page.table with
  | error e => simp
  | ok f =>
    simp only [Except.ok.injEq, exists_eq', true_and]
    by_cases hlt : page.number < (s page.table).length
    · rw [List.getElem?_eq_getElem hlt]
      obtain ⟨cells, hcells⟩ := h page.table _ (List.getElem_mem hlt)
      simp [hcells, hlt]
    · rw [List.getElem?_eq_none (by omega)]
      simp [hlt]

/-- Where all pages can be read, only types matter to an insertion. -/
theorem insertRow_eq_ok_iff (h : s.Each Readable) {table : TableId} {r : Row} :
    (s.insertRow c table r).1 = .ok ()
      ↔ ∃ f, c.file table = .ok f ∧ r.schema.agrees f.schema = true
        ∧ Row.wellTyped f.schema r.fields = true := by
  obtain ⟨n, hn⟩ := exists_room (h table)
  rw [Store.insertRow]
  cases hf : c.file table with
  | error e => simp
  | ok f =>
    simp only [hn]
    by_cases hagrees : r.schema.agrees f.schema = true
    · by_cases htyped : Row.wellTyped f.schema r.fields = true
      · simp [hagrees, htyped]
      · simp [hagrees, htyped]
    · simp [hagrees]

/-- A deletion needs the address of a row that is there. -/
theorem deleteRow_eq_ok_iff {r : Row} :
    (s.deleteRow c r).1 = .ok ()
      ↔ ∃ record, r.record = some record ∧ (∃ f, c.file record.page.table = .ok f)
        ∧ ∃ fields, s.row? record = some fields := by
  rw [Store.deleteRow]
  cases hrecord : r.record with
  | none => simp
  | some record =>
    simp only [Option.some.injEq, exists_eq_left', Store.page, row?]
    cases hf : c.file record.page.table with
    | error e => simp
    | ok f =>
      rcases (s record.page.table)[record.page.number]? with _ | e | cells
      · simp
      · simp
      · rcases hcell : cells[record.slot]? with _ | _ | fields
        · simp [hcell]
        · simp [hcell]
        · simp [hcell]

/-- An empty page at the end of a table holds no row. -/
theorem row?_put_grown (s : Store) (table : TableId) (slots n : Nat) (record : RecordId) :
    (s.put table (grown slots n (s table))).row? record = s.row? record := by
  rw [row?, row?]
  by_cases heq : record.page.table = table
  · rw [heq, put_self]
    by_cases hn : n < (s table).length
    · rw [grown_of_lt hn]
    · rw [grown_of_le (by omega), List.getElem?_append]
      by_cases hlt : record.page.number < (s table).length
      · rw [if_pos hlt]
      · rw [if_neg hlt, List.getElem?_eq_none (Nat.not_lt.mp hlt)]
        cases record.page.number - (s table).length with
        | zero =>
          simp only [List.getElem?_cons_zero, List.getElem?_replicate]
          split <;> rfl
        | succ k => rfl
  · rw [put_of_ne _ heq]

/-- A refused insertion leaves every row where it is, and adds none. -/
theorem row?_of_insertRow_error {table : TableId} {r : Row} {e : StorageError}
    (h : (s.insertRow c table r).1 = .error e) (record : RecordId) :
    (s.insertRow c table r).2.row? record = s.row? record := by
  revert h
  rw [Store.insertRow]
  split
  · intro _; rfl
  · split
    · split
      · intro _; rfl
      · split
        · intro h; cases h
        -- a row that is refused late has grown the table by an empty page
        · intro _; exact row?_put_grown s table _ _ record
    · intro _; rfl

theorem eq_of_deleteRow_error {r : Row} {e : StorageError} (h : (s.deleteRow c r).1 = .error e) :
    (s.deleteRow c r).2 = s := by
  revert h
  rw [Store.deleteRow]
  split
  · intro _; rfl
  · split
    · intro _; rfl
    · split
      · intro h; cases h
      · intro _; rfl

end Store

end RelStore
