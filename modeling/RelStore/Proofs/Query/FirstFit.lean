/-
First fit: where rows go that are stored one after the other.

* `TableContents.stored` — the contents with one more row, in the first empty cell (`TableContents.stored_eq_onPage`);
* `TableContents.drop_stored_of_lt`, `TableContents.drop_stored_of_le` — pages behind the one with room do not change,
  and pages before it are full, so the row goes where it would go without them;
* `TableContents.exists_rowsFrom_stored` — the rows are the old ones, with the new one somewhere among them;
* `TableContents.empties` — how many cells are empty (`TableContents.room_le_iff`, `TableContents.empties_take_stored`);
* `TableContents.FindsRoom` — every row of a list in turn finds room on its own page or before;
* `TableContents.RoomFor` — the first pages have as many empty cells as there are rows of the list on them, however many
  pages are taken;
* `TableContents.findsRoom_iff` — for rows that come by page the two are the same.
-/
import RelStore.Proofs.Query.Places

namespace RelStore

open Page (Cells fillFirst)

variable {schema : Schema} {pages : TableContents} {slots n m : Nat} {fields : List Field} {cells : Cells}

/-- Whether a row stands on one of the first `m` pages. -/
def Row.standsBefore (m : Nat) (x : Row) : Bool :=
  match x.record with
  | some record => record.page.number < m
  | none => false

theorem Row.standsBefore_eq {x : Row} {record : RecordId} (h : x.record = some record) (m : Nat) :
    x.standsBefore m = decide (record.page.number < m) := by
  rw [standsBefore, h]

namespace Page

/-- A cell that is filled is one empty cell less. -/
theorem count_fillFirst (h : none ∈ cells) (fields : List Field) :
    (fillFirst fields cells).count none + 1 = cells.count none := by
  obtain ⟨slot, hslot⟩ := exists_findIdx?_of_none_mem h
  obtain ⟨hlt, hnone, -⟩ := List.findIdx?_eq_some_iff_getElem.mp hslot
  have hcell : cells[slot] = none := Option.isNone_iff_eq_none.mp hnone
  have hpos : 0 < cells.count none := List.count_pos_iff.mpr h
  have hcount : (fillFirst fields cells).count none = cells.count none - 1 := by
    rw [fillFirst, hslot]
    simp [List.count_set hlt, hcell]
  omega

end Page

namespace TableContents

/-- There is room on the first page, or it is full and there is room behind it. -/
theorem room_cons_eq_ok (h : room (.ok cells :: pages) = .ok n) :
    none ∈ cells ∧ n = 0 ∨ none ∉ cells ∧ ∃ k, room pages = .ok k ∧ n = k + 1 := by
  rw [room_cons_ok] at h
  by_cases hmem : none ∈ cells
  · rw [if_pos hmem] at h
    cases h
    exact .inl ⟨hmem, rfl⟩
  · rw [if_neg hmem] at h
    cases hrest : room pages with
    | error e =>
      rw [hrest] at h
      cases h
    | ok k =>
      rw [hrest] at h
      cases h
      exact .inr ⟨hmem, k, rfl, rfl⟩

/-- The contents with one more row: it goes to the first empty cell, on a new page if there is none. -/
def stored (slots : Nat) (fields : List Field) : TableContents → TableContents
  | [] => [.ok (fillFirst fields (List.replicate slots none))]
  | .error e :: pages => .error e :: pages
  | .ok cells :: pages =>
    if cells.any Option.isNone then .ok (fillFirst fields cells) :: pages else .ok cells :: stored slots fields pages

theorem stored_of_mem (h : none ∈ cells) :
    stored slots fields (.ok cells :: pages) = .ok (fillFirst fields cells) :: pages :=
  if_pos (List.any_eq_true.mpr ⟨none, h, rfl⟩)

theorem stored_of_not_mem (h : none ∉ cells) :
    stored slots fields (.ok cells :: pages) = .ok cells :: stored slots fields pages := by
  refine if_neg fun hany => h ?_
  obtain ⟨cell, hcell, hnone⟩ := List.any_eq_true.mp hany
  rwa [Option.isNone_iff_eq_none.mp hnone] at hcell

/-- The page with room is filled. -/
theorem stored_eq_onPage (hroom : room pages = .ok n) :
    stored slots fields pages = (grown slots n pages).onPage n (fillFirst fields) := by
  induction pages generalizing n with
  | nil =>
    cases hroom
    rfl
  | cons page pages ih =>
    cases page with
    | error e => cases hroom
    | ok cells =>
      obtain ⟨hmem, rfl⟩ | ⟨hmem, k, hrest, rfl⟩ := room_cons_eq_ok hroom
      · rw [stored_of_mem hmem, grown_of_lt (Nat.zero_lt_succ _)]
        rfl
      · rw [stored_of_not_mem hmem, ih hrest]
        by_cases hlt : k < pages.length
        · rw [grown_of_lt hlt, grown_of_lt (Nat.succ_lt_succ hlt)]
          rfl
        · rw [grown_of_le (Nat.not_lt.mp hlt), grown_of_le (Nat.succ_le_succ (Nat.not_lt.mp hlt))]
          rfl

/-- Pages behind the one with room do not change. -/
theorem drop_stored_of_lt (hroom : room pages = .ok n) (h : n < m) :
    (stored slots fields pages).drop m = pages.drop m := by
  induction pages generalizing n m with
  | nil =>
    obtain ⟨m, rfl⟩ : ∃ k, m = k + 1 := ⟨m - 1, by omega⟩
    exact List.drop_nil
  | cons page pages ih =>
    obtain ⟨m, rfl⟩ : ∃ k, m = k + 1 := ⟨m - 1, by omega⟩
    cases page with
    | error e => cases hroom
    | ok cells =>
      obtain ⟨hmem, rfl⟩ | ⟨hmem, k, hrest, rfl⟩ := room_cons_eq_ok hroom
      · rw [stored_of_mem hmem, List.drop_succ_cons, List.drop_succ_cons]
      · rw [stored_of_not_mem hmem, List.drop_succ_cons, List.drop_succ_cons, ih hrest (Nat.lt_of_succ_lt_succ h)]

/-- Pages before the one with room are full, so without them the row goes to the same place. -/
theorem drop_stored_of_le (hroom : room pages = .ok n) (h : m ≤ n) :
    (stored slots fields pages).drop m = stored slots fields (pages.drop m) := by
  induction pages generalizing n m with
  | nil =>
    cases hroom
    obtain rfl := Nat.le_zero.mp h
    rfl
  | cons page pages ih =>
    cases m with
    | zero => rfl
    | succ m =>
      cases page with
      | error e => cases hroom
      | ok cells =>
        obtain ⟨-, rfl⟩ | ⟨hmem, k, hrest, rfl⟩ := room_cons_eq_ok hroom
        · exact absurd h (Nat.not_succ_le_zero m)
        · rw [stored_of_not_mem hmem, List.drop_succ_cons, List.drop_succ_cons, ih hrest (Nat.le_of_succ_le_succ h)]

/-- Only a new page makes the table longer. -/
theorem length_stored (hroom : room pages = .ok n) (h : n < pages.length) :
    (stored slots fields pages).length = pages.length := by
  rw [stored_eq_onPage hroom, grown_of_lt h, onPage, List.length_modify]

/-- What holds of every page holds of every page afterwards, if filling a cell keeps it. -/
theorem each_stored {P : Except StorageError Cells → Prop} (h : ∀ page ∈ pages, P page)
    (hempty : P (.ok (List.replicate slots none))) (hfill : ∀ page, P page → P (page.map (fillFirst fields))) :
    ∀ page ∈ stored slots fields pages, P page := by
  induction pages with
  | nil => exact fun page hpage => List.mem_singleton.mp hpage ▸ hfill _ hempty
  | cons page pages ih =>
    obtain ⟨hhead, htail⟩ := List.forall_mem_cons.mp h
    cases page with
    | error e => exact h
    | ok cells =>
      rw [stored]
      split
      · exact List.forall_mem_cons.mpr ⟨hfill _ hhead, htail⟩
      · exact List.forall_mem_cons.mpr ⟨hhead, ih htail⟩

/-! ### The rows -/

theorem pageRows_append_cons (page : PageId) (left right : Cells) (cell : Option (List Field)) :
    pageRows schema page (left ++ cell :: right)
      = pageRows schema page left ++ ((cell.map fun fields => (⟨schema, fields, some ⟨page, left.length⟩⟩ : Row)).toList
        ++ (right.zipIdx (left.length + 1)).filterMap fun p =>
          p.1.map fun fields => ⟨schema, fields, some ⟨page, p.2⟩⟩) := by
  rw [pageRows, List.zipIdx_append, List.filterMap_append, List.zipIdx_cons, List.filterMap_cons, Nat.zero_add]
  cases cell <;> rfl

/-- On the page that is filled there is one row more. -/
theorem exists_pageRows_fillFirst (h : none ∈ cells) (schema : Schema) (page : PageId) (fields : List Field) :
    ∃ slot before after, pageRows schema page cells = before ++ after
      ∧ pageRows schema page (fillFirst fields cells) = before ++ ⟨schema, fields, some ⟨page, slot⟩⟩ :: after := by
  obtain ⟨slot, hslot⟩ := Page.exists_findIdx?_of_none_mem h
  obtain ⟨hlt, hnone, -⟩ := List.findIdx?_eq_some_iff_getElem.mp hslot
  have hcell : cells[slot] = none := Option.isNone_iff_eq_none.mp hnone
  have hset : ∀ cell, cells.set slot cell = cells.take slot ++ cell :: cells.drop (slot + 1) := fun cell => by
    rw [List.set_eq_take_append_cons_drop, if_pos hlt]
  have hold : pageRows schema page cells = pageRows schema page (cells.take slot ++ none :: cells.drop (slot + 1)) := by
    rw [← hset, ← hcell, List.set_getElem_self]
  have hnew : fillFirst fields cells = cells.take slot ++ some fields :: cells.drop (slot + 1) := by
    rw [fillFirst, hslot]
    exact hset _
  rw [hold, hnew, pageRows_append_cons, pageRows_append_cons]
  exact ⟨_, _, _, rfl, rfl⟩

/-- In the table there is one row more. -/
theorem exists_rowsFrom_stored (hslots : slots ≠ 0) (hreadable : ∀ page ∈ pages, Readable page) (schema : Schema)
    (table : TableId) (first : Nat) (fields : List Field) :
    ∃ record before after, rowsFrom schema table first pages = before ++ after
      ∧ rowsFrom schema table first (stored slots fields pages) = before ++ ⟨schema, fields, some record⟩ :: after := by
  induction pages generalizing first with
  | nil =>
    have hmem : none ∈ List.replicate slots (none : Option (List Field)) := List.mem_replicate.mpr ⟨hslots, rfl⟩
    obtain ⟨slot, before, after, hold, hnew⟩ := exists_pageRows_fillFirst hmem schema ⟨table, first⟩ fields
    have hnone : pageRows schema ⟨table, first⟩ (List.replicate slots none) = [] := by
      refine List.eq_nil_iff_forall_not_mem.mpr fun row hrow => ?_
      obtain ⟨i, fields, hcell, -⟩ := mem_pageRows_iff.mp hrow
      cases List.eq_of_mem_replicate (List.mem_of_getElem? hcell)
    refine ⟨⟨⟨table, first⟩, slot⟩, before, after, hnone.symm.trans hold, ?_⟩
    rw [stored, rowsFrom, rowsFrom, hnew, List.append_nil]
  | cons page pages ih =>
    obtain ⟨⟨cells, rfl⟩, hrest⟩ := List.forall_mem_cons.mp hreadable
    by_cases hmem : none ∈ cells
    · obtain ⟨slot, before, after, hold, hnew⟩ := exists_pageRows_fillFirst hmem schema ⟨table, first⟩ fields
      rw [stored_of_mem hmem, rowsFrom, rowsFrom, hold, hnew]
      exact ⟨_, before, _, List.append_assoc .., List.append_assoc ..⟩
    · obtain ⟨record, before, after, hold, hnew⟩ := ih hrest (first + 1)
      rw [stored_of_not_mem hmem, rowsFrom, rowsFrom, hold, hnew]
      exact ⟨record, _, after, (List.append_assoc ..).symm, (List.append_assoc ..).symm⟩

/-! ### Empty cells -/

/-- How many cells are empty. -/
def empties : TableContents → Nat
  | [] => 0
  | .error _ :: pages => empties pages
  | .ok cells :: pages => cells.count none + empties pages

/-- The row goes to a page or one before it exactly if there is an empty cell so far. -/
theorem room_le_iff (hroom : room pages = .ok n) (hm : m < pages.length) :
    n ≤ m ↔ 0 < empties (pages.take (m + 1)) := by
  induction pages generalizing n m with
  | nil => exact absurd hm (Nat.not_lt_zero m)
  | cons page pages ih =>
    cases page with
    | error e => cases hroom
    | ok cells =>
      rw [List.take_succ_cons, empties]
      obtain ⟨hmem, rfl⟩ | ⟨hmem, k, hrest, rfl⟩ := room_cons_eq_ok hroom
      · have := List.count_pos_iff.mpr hmem
        omega
      · rw [List.count_eq_zero.mpr hmem, Nat.zero_add]
        cases m with
        | zero => simp [empties]
        | succ m => rw [← ih hrest (Nat.lt_of_succ_lt_succ hm), Nat.succ_le_succ_iff]

/-- There is one empty cell less, on the pages up to the one with room and further. -/
theorem empties_take_stored (hroom : room pages = .ok n) (hn : n < pages.length) (hm : n < m) (fields : List Field) :
    empties ((stored slots fields pages).take m) + 1 = empties (pages.take m) := by
  induction pages generalizing n m with
  | nil => exact absurd hn (Nat.not_lt_zero n)
  | cons page pages ih =>
    obtain ⟨m, rfl⟩ : ∃ k, m = k + 1 := ⟨m - 1, by omega⟩
    cases page with
    | error e => cases hroom
    | ok cells =>
      obtain ⟨hmem, rfl⟩ | ⟨hmem, k, hrest, rfl⟩ := room_cons_eq_ok hroom
      · rw [stored_of_mem hmem, List.take_succ_cons, List.take_succ_cons, empties, empties,
          ← Page.count_fillFirst hmem fields]
        omega
      · rw [stored_of_not_mem hmem, List.take_succ_cons, List.take_succ_cons, empties, empties,
          ← ih hrest (Nat.lt_of_succ_lt_succ hn) (Nat.lt_of_succ_lt_succ hm)]
        omega

/-! ### Room for rows of the table itself -/

/-- Each of the rows in turn finds room on its own page or before. -/
def FindsRoom (slots : Nat) : TableContents → List Row → Prop
  | _, [] => True
  | pages, x :: rest =>
    (∃ n record, room pages = .ok n ∧ x.record = some record ∧ n ≤ record.page.number)
      ∧ FindsRoom slots (stored slots x.fields pages) rest

/-- Of every number of pages, the first ones have as many empty cells as there are rows of the list on them. -/
def RoomFor (pages : TableContents) (rows : List Row) : Prop :=
  ∀ m, rows.countP (·.standsBefore m) ≤ empties (pages.take m)

/-- Rows that stand in the table and come by page find room exactly if there is room for them. -/
theorem findsRoom_iff {rows : List Row} (hreadable : ∀ page ∈ pages, Readable page)
    (hplace : ∀ x ∈ rows, ∃ record, x.record = some record ∧ record.page.number < pages.length)
    (hordered : rows.Pairwise Row.Precedes) : FindsRoom slots pages rows ↔ RoomFor pages rows := by
  induction rows generalizing pages with
  | nil => exact ⟨fun _ m => Nat.zero_le _, fun _ => trivial⟩
  | cons x rest ih =>
    obtain ⟨record, hrecord, hlt⟩ := hplace x List.mem_cons_self
    obtain ⟨hhead, htail⟩ := List.pairwise_cons.mp hordered
    obtain ⟨n, hroom⟩ := Store.exists_room hreadable
    -- up to the page of the first row there is no other one, and behind it there is one row and one empty cell less
    have hfew : ∀ m, m ≤ record.page.number → rest.countP (·.standsBefore m) = 0 := by
      intro m hm
      refine List.countP_eq_zero.mpr fun y hy => ?_
      obtain ⟨r, r', hr, hr', hbefore⟩ := hhead y hy
      rw [hrecord] at hr
      cases hr
      rw [Row.standsBefore_eq hr']
      have : record.page.number ≤ r'.page.number := by
        rcases hbefore with hlt | ⟨heq, -⟩ <;> omega
      simp only [decide_eq_true_eq]
      omega
    have hcount : ∀ m, (x :: rest).countP (·.standsBefore m)
        = rest.countP (·.standsBefore m) + if record.page.number < m then 1 else 0 := by
      intro m
      rw [List.countP_cons, Row.standsBefore_eq hrecord]
      simp only [decide_eq_true_eq]
    have hrest : n ≤ record.page.number →
        (FindsRoom slots (stored slots x.fields pages) rest ↔ RoomFor (stored slots x.fields pages) rest) := by
      intro hn
      refine ih (each_stored hreadable ⟨_, rfl⟩ fun page hpage => Store.readable_map hpage _) (fun y hy => ?_) htail
      rw [length_stored hroom (Nat.lt_of_le_of_lt hn hlt)]
      exact hplace y (List.mem_cons_of_mem _ hy)
    have hempties : n ≤ record.page.number → ∀ m, record.page.number < m →
        empties ((stored slots x.fields pages).take m) + 1 = empties (pages.take m) := fun hn m hm =>
      empties_take_stored hroom (Nat.lt_of_le_of_lt hn hlt) (Nat.lt_of_le_of_lt hn hm) x.fields
    constructor
    · rintro ⟨⟨n', record', hroom', hrecord', hn⟩, hfinds⟩ m
      obtain rfl : n' = n := Except.ok.inj (hroom'.symm.trans hroom)
      obtain rfl : record' = record := Option.some.inj (hrecord'.symm.trans hrecord)
      have := (hrest hn).mp hfinds m
      rw [hcount]
      by_cases hm : record'.page.number < m
      · rw [if_pos hm, ← hempties hn m hm]
        omega
      · rw [if_neg hm, hfew m (Nat.not_lt.mp hm)]
        exact Nat.zero_le _
    · intro hfor
      have hn : n ≤ record.page.number := by
        rw [room_le_iff hroom hlt]
        have := hfor (record.page.number + 1)
        rw [hcount, if_pos (Nat.lt_succ_self _)] at this
        omega
      refine ⟨⟨n, record, hroom, hrecord, hn⟩, (hrest hn).mpr fun m => ?_⟩
      by_cases hm : record.page.number < m
      · have := hfor m
        rw [hcount, if_pos hm, ← hempties hn m hm] at this
        omega
      · rw [hfew m (Nat.not_lt.mp hm)]
        exact Nat.zero_le _

end TableContents

end RelStore
